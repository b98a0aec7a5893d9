import AvailCore.Kate.EvaluationGrid
import AvailCore.Recovery.Scheme

/-!
# Proofs of cells

The commitments to the rows of a block and the proofs of its cells, as `kate/src/com.rs`
makes them: `par_build_commitments` and `build_proof`. A proof of 48 bytes and the cell's
32 bytes are the content of the `SingleCell` that a light client verifies.

## The model

Whether rows are committed to and cells proved in turn or in parallel, what comes out is
the same but for the error, of which there may be several: the model has that of the last
cell. The matrix has any shape; where an entry is not there, the code panics.

## What is proved

Prover and verifier agree: what `build_proof` returns for a cell, `verify_v2` accepts with
the commitment that `par_build_commitments` makes for its row (`verifyV2_buildProof`).
-/

namespace AvailCore

open Chunks AvailCore.Fourier

/-- `Cell` -/
structure Cell where
  row : UInt32
  col : UInt32
  deriving DecidableEq, Repr

/-- `ROW_EXTENSION` -/
def rowExtension : NonZeroU16 := ⟨2, by decide⟩

/-- `COL_EXTENSION` -/
def colExtension : NonZeroU16 := ⟨1, NonZeroU16.one_bounds⟩

/-- `PROOF_SIZE + SCALAR_SIZE` -/
abbrev sproofSize : ℕ := 80

/-- `make_dims` -/
def makeDims (bd : BlockDimensions) : Run KateError Dimensions :=
  Run.okOr .zeroDimension (Dimensions.newFrom bd.rows.toNat bd.cols.toNat)

theorem makeDims_eq_ok {bd : BlockDimensions} {dims : Dimensions} (h : makeDims bd = .ok dims) :
    dims.height = bd.rows.toNat ∧ dims.width = bd.cols.toNat :=
  Dimensions.newFrom_eq_some.mp (Run.okOr_eq_ok.mp h)

/-! ### Commitments -/

section Commitments

variable {C : Type} {nrows ncols : ℕ} (A : Ark) (S : Committer C)

/-- `commit` -/
def commitRow (domain : EvaluationDomain) (row : List ArkScalar) : Run KateError C := do
  let poly := A.ifft domain row
  Run.okOr .multiproofError (S.commit poly)

/-- `par_build_commitments`, once it has the extended matrix. -/
def buildCommitments (blockDims : BlockDimensions) (extMatrix : DMatrix ArkScalar nrows ncols) :
    Run KateError (List UInt8) := do
  let extendedRows := blockDims.rows.toNat * extensionFactor
  let domain ← Run.okOr .domainSizeInvalid (A.newDomain blockDims.cols.toNat)
  let commitments ← (List.range extendedRows).mapM fun rowIdx => do
    let row ← extMatrix.getRow rowIdx
    commitRow A S domain row
  let commitmentsBytes ← commitments.mapM fun c => Run.okOr .multiproofError (S.toBytes c)
  return commitmentsBytes.flatten

/-- A chunk of the commitments is that of its row. -/
theorem exists_commitRow {A : Ark} {S : Committer C} {blockDims : BlockDimensions}
    {extMatrix : DMatrix ArkScalar nrows ncols} {commitments : List UInt8}
    (hlen : ∀ {c bytes}, S.toBytes c = some bytes → bytes.length = commitmentSize)
    (h : buildCommitments A S blockDims extMatrix = .ok commitments) {y : ℕ} {bytes : List UInt8}
    (hbytes : (chunksExact commitmentSize commitments)[y]? = some bytes) :
    ∃ domain c, A.newDomain blockDims.cols.toNat = some domain ∧
      S.commit (A.ifft domain (extMatrix.row y)) = some c ∧ S.toBytes c = some bytes := by
  simp only [buildCommitments, Except.bind_eq_ok, Run.okOr_eq_ok, Except.pure_eq_ok, Except.ok.injEq] at h
  obtain ⟨domain, hdomain, cs, hcs, bs, hbs, rfl⟩ := h
  have hlength : ∀ chunk ∈ bs, chunk.length = commitmentSize := by
    intro chunk hchunk
    obtain ⟨c, -, hc⟩ := Except.exists_of_mem_mapM hbs hchunk
    exact hlen (Run.okOr_eq_ok.mp hc)
  rw [chunksExact_flatten (by decide) hlength] at hbytes
  obtain ⟨c, hc, htoBytes⟩ := Except.exists_of_getElem?_mapM hbs hbytes
  obtain ⟨y', hy, hrow⟩ := Except.exists_of_getElem?_mapM hcs hc
  obtain ⟨hlt, rfl⟩ := List.getElem?_eq_some_iff.mp hy
  rw [List.getElem_range] at hrow
  simp only [DMatrix.getRow, commitRow, Except.bind_eq_ok, Run.okOr_eq_ok, Except.pure_eq_ok, Except.ok.injEq] at hrow
  obtain ⟨_, ⟨-, -, rfl⟩, hcommit⟩ := hrow
  exact ⟨domain, c, hdomain, hcommit, Run.okOr_eq_ok.mp htoBytes⟩

end Commitments

/-- `par_extend_data_matrix` -/
def parExtendDataMatrix (b : Build) (A : Ark) (blockDims : BlockDimensions) (block : List UInt8) :
    Run KateError (Σ nrows ncols, DMatrix ArkScalar nrows ncols) := do
  let dims ← makeDims blockDims
  let extDims ← Run.okOr .invalidDimensionExtension (dims.extend rowExtension colExtension)
  let chunkSize := blockDims.chunkSize.toNat
  Run.ensure (remainder chunkSize block).isEmpty .dimensionsMismatch
  let scalars ← (chunksExact chunkSize block).mapM (toBlsScalar A)
  let extendedColumnEvalDomain ← Run.okOr .invalidDimensionExtension (A.newDomain extDims.height)
  let columnEvalDomain ← Run.okOr .domainSizeInvalid (A.newDomain dims.height)
  let colWiseScalars ← DMatrix.fromRowIterator dims.height dims.width scalars
  let extColumnsWise := colWiseScalars.columns.map fun col =>
    A.fft extendedColumnEvalDomain (A.ifft columnEvalDomain col)
  Run.assert (b = .wrapping ∨ ∀ extendedCol ∈ extColumnsWise, extendedCol.length = extDims.height)
  let extMatrix ← DMatrix.fromIterator extDims.height dims.width extColumnsWise.flatten
  return ⟨_, _, extMatrix⟩

/-- `par_build_commitments::<CHUNK_SIZE>` -/
def parBuildCommitments {C : Type} (b : Build) (maximumBlockSize : Bool) (A : Ark) (S : Committer C)
    (K : Codec AppData) (rng : Rng) (c : ℕ) (rows cols : UInt32) (extrinsicsByKey : List AppExtrinsic)
    (rngSeed : Seed) : Run KateError (List (AppId × UInt32) × List UInt8 × BlockDimensions ×
      Σ nrows ncols, DMatrix ArkScalar nrows ncols) := do
  let (txLayout, block, blockDims) ← flattenAndPadBlock b maximumBlockSize K rng c rows cols extrinsicsByKey rngSeed
  let extMatrix ← parExtendDataMatrix b A blockDims block
  let commitmentsBytes ← buildCommitments A S blockDims extMatrix.2.2
  return (txLayout, commitmentsBytes, blockDims, extMatrix)

/-- The extended matrix has twice the rows. -/
theorem shape_of_parExtendDataMatrix {b : Build} {A : Ark} {blockDims : BlockDimensions} {block : List UInt8}
    {m : Σ nrows ncols, DMatrix ArkScalar nrows ncols} (h : parExtendDataMatrix b A blockDims block = .ok m) :
    m.1 = blockDims.rows.toNat * 2 ∧ m.2.1 = blockDims.cols.toNat := by
  simp only [parExtendDataMatrix, Except.bind_eq_ok, Run.okOr_eq_ok, Except.pure_eq_ok, Except.ok.injEq,
    Dimensions.extend_eq_some] at h
  obtain ⟨dims, hdims, extDims, ⟨hrows, -⟩, -, -, _, -, _, -, _, -, _, -, -, -, _, -, rfl⟩ := h
  obtain ⟨hheight, hwidth⟩ := makeDims_eq_ok hdims
  exact ⟨hrows.trans (congrArg (· * 2) hheight), hwidth⟩

/-- The commitments are those of the matrix that is returned with them. -/
theorem parBuildCommitments_eq_ok {C : Type} {b : Build} {maximumBlockSize : Bool} {A : Ark} {S : Committer C}
    {K : Codec AppData} {rng : Rng} {c : ℕ} {rows cols : UInt32} {extrinsicsByKey : List AppExtrinsic}
    {rngSeed : Seed} {layout : List (AppId × UInt32)} {commitments : List UInt8} {blockDims : BlockDimensions}
    {m : Σ nrows ncols, DMatrix ArkScalar nrows ncols}
    (h : parBuildCommitments b maximumBlockSize A S K rng c rows cols extrinsicsByKey rngSeed =
      .ok (layout, commitments, blockDims, m)) :
    m.1 = blockDims.rows.toNat * 2 ∧ m.2.1 = blockDims.cols.toNat ∧
      buildCommitments A S blockDims m.2.2 = .ok commitments := by
  simp only [parBuildCommitments, Except.bind_eq_ok, Except.pure_eq_ok, Except.ok.injEq, Prod.mk.injEq] at h
  obtain ⟨⟨_, block, _⟩, -, m', hm, commitments', hcommitments, -, rfl, rfl, rfl⟩ := h
  obtain ⟨hrows, hcols⟩ := shape_of_parExtendDataMatrix hm
  exact ⟨hrows, hcols, hcommitments⟩

/-! ### Proofs -/

/-- What comes of calls that are all made: their values, or the last error, or a panic. -/
def runAll {ε α : Type} : List (Run ε α) → Run ε (List α)
  | [] => .ok []
  | r :: rs =>
    match r, runAll rs with
    | .ok a, .ok as => .ok (a :: as)
    | .ok _, .error s => .error s
    | .error (.err e), .ok _ => Run.fail e
    | .error (.err _), .error s => .error s
    | .error s, _ => .error s

theorem runAll_eq_ok_iff {ε α : Type} {rs : List (Run ε α)} {as : List α} :
    runAll rs = .ok as ↔ List.Forall₂ (fun r a => r = .ok a) rs as := by
  induction rs generalizing as with
  | nil => cases as <;> simp [runAll]
  | cons r rs ih =>
    rw [List.forall₂_cons_left_iff]
    constructor
    · intro h
      cases hrest : runAll rs with
      | ok as' =>
        cases r with
        | ok a =>
          simp only [runAll, hrest] at h
          cases h
          exact ⟨a, as', rfl, ih.mp hrest, rfl⟩
        | error s => cases s <;> simp [runAll, hrest, Run.fail] at h
      | error t =>
        cases r with
        | ok a => simp [runAll, hrest] at h
        | error s => cases s <;> simp [runAll, hrest] at h
    · intro h
      obtain ⟨a, as', rfl, hrest, rfl⟩ := h
      simp only [runAll, ih.mpr hrest]

section BuildProof

variable {C P : Type} {nrows ncols : ℕ} (b : Build) (A : Ark) (S : CellScheme C P) (blockDims : BlockDimensions)
  (extDataMatrix : DMatrix ArkScalar nrows ncols)

/-- `get_ext_data_matrix`: the entry of a row and a column, in the storage. -/
def getExtDataMatrix (extRows rIndex j : ℕ) : Run KateError ArkScalar :=
  extDataMatrix.index (saturatingAdd rIndex (saturatingMul j extRows))

/-- `get_cell_row` -/
def getCellRow (extDims : Dimensions) (cell : Cell) : Run KateError (List ArkScalar × ℕ × ℕ) := do
  let rIndex := cell.row.toNat
  Run.ensure (rIndex < extDims.height ∧ cell.col < blockDims.cols) .indexOutOfRange
  let cIndex := cell.col.toNat
  let row ← (List.range extDims.width).mapM (getExtDataMatrix extDataMatrix extDims.height rIndex)
  return (row, rIndex, cIndex)

/-- The proof of a cell: the body of the loop of `build_proof`. -/
def cellProof (dims extDims : Dimensions) (domain : EvaluationDomain) (cell : Cell) : Run KateError (List UInt8) := do
  let (row, rIndex, cIndex) ← getCellRow blockDims extDataMatrix extDims cell
  Run.assert (b = .wrapping ∨ row.length = nextPowerOfTwo dims.width)
  let poly := A.ifft domain row
  let point ← Run.index domain.elements cIndex
  let witness ← Run.okOr .multiproofError (S.computeWitnessPolynomial poly point)
  let proof ← Run.okOr .multiproofError (S.openWitness witness)
  let commitmentBytes ← Run.okOr .multiproofError (S.proofToBytes proof)
  let scalar ← getExtDataMatrix extDataMatrix extDims.height rIndex cIndex
  let pointBytes ← Run.okOr .multiproofError (A.toBytes scalar)
  return commitmentBytes.val ++ pointBytes.val

/-- `build_proof` -/
def buildProof (cells : List Cell) : Run KateError (List UInt8) := do
  let dims ← makeDims blockDims
  let extDims ← Run.okOr .invalidDimensionExtension (dims.extend rowExtension colExtension)
  let rowEvalDomain ← Run.okOr .domainSizeInvalid (A.newDomain dims.width)
  let resultBytes ← runAll (cells.map (cellProof b A S blockDims extDataMatrix dims extDims rowEvalDomain))
  return resultBytes.flatten

end BuildProof

section Agreement

variable {C P : Type} {nrows ncols : ℕ} {b : Build} {A : Ark} {S : CellScheme C P} {blockDims : BlockDimensions}
  {extDataMatrix : DMatrix ArkScalar nrows ncols}

/-- The entry is that of the row and the column, as nothing saturates. -/
theorem getExtDataMatrix_eq (hrows : nrows < 2 ^ 16) {y j : ℕ} (hy : y < nrows) (hj : j < 2 ^ 16) :
    getExtDataMatrix extDataMatrix nrows y j = Run.unwrap (extDataMatrix.get y j) := by
  have hmul : j * nrows ≤ 2 ^ 16 * 2 ^ 16 := Nat.mul_le_mul hj.le hrows.le
  have hlimit : 2 ^ 16 * 2 ^ 16 + 2 ^ 16 ≤ usizeLimit - 1 := by decide
  rw [getExtDataMatrix, saturatingMul, Nat.min_eq_left (by omega), saturatingAdd, Nat.min_eq_left (by omega),
    DMatrix.index, Run.index, extDataMatrix.index_eq hy]

/-- The row that is interpolated is the cell's. -/
theorem getCellRow_eq_ok {extDims : Dimensions} (hheight : extDims.height = nrows) (hwidth : extDims.width = ncols)
    {cell : Cell} {row : List ArkScalar} {rIndex cIndex : ℕ}
    (h : getCellRow blockDims extDataMatrix extDims cell = .ok (row, rIndex, cIndex)) :
    rIndex = cell.row.toNat ∧ cIndex = cell.col.toNat ∧ rIndex < nrows ∧ cIndex < blockDims.cols.toNat ∧
      row = extDataMatrix.row rIndex := by
  have hrows : nrows < 2 ^ 16 := hheight ▸ extDims.rows.property.2
  have hcols : ncols < 2 ^ 16 := hwidth ▸ extDims.cols.property.2
  simp only [getCellRow, Except.bind_eq_ok, Run.ensure_eq_ok, decide_eq_true_eq, Except.pure_eq_ok,
    Except.ok.injEq, Prod.mk.injEq, hheight, hwidth] at h
  obtain ⟨-, ⟨hrow, hcol⟩, row', hmapM, rfl, rfl, rfl⟩ := h
  refine ⟨rfl, rfl, hrow, UInt32.lt_iff_toNat_lt.mp hcol, ?_⟩
  refine List.ext_getElem? fun j => ?_
  rw [extDataMatrix.getElem?_row hrow]
  cases hj : row'[j]? with
  | none =>
    have hle : ncols ≤ j := by
      rw [List.getElem?_eq_none_iff, ← (Except.mapM_ok_iff.mp hmapM).length_eq, List.length_range] at hj
      exact hj
    rw [eq_comm, Option.eq_none_iff_forall_ne_some]
    intro s hs
    exact absurd (DMatrix.lt_of_get_eq_some hs).2 (not_lt.mpr hle)
  | some s =>
    obtain ⟨j', hj', hentry⟩ := Except.exists_of_getElem?_mapM hmapM hj
    obtain ⟨hlt, rfl⟩ := List.getElem?_eq_some_iff.mp hj'
    rw [List.length_range] at hlt
    rw [List.getElem_range, getExtDataMatrix_eq hrows hrow (hlt.trans hcols), Run.unwrap_eq_ok] at hentry
    exact hentry.symm

/-- **A proof of a cell**: its value is that of the polynomial of its row at the point of its column. -/
theorem cellProof_eq_ok {dims extDims : Dimensions} {domain : EvaluationDomain}
    (hheight : extDims.height = nrows) (hwidth : extDims.width = ncols)
    (hdomain : A.newDomain dims.width = some domain) (hsize : domain.size = ncols) {cell : Cell} {bytes : List UInt8}
    (h : cellProof b A S blockDims extDataMatrix dims extDims domain cell = .ok bytes) :
    ∃ witness proof proofBytes value valueBytes,
      S.computeWitnessPolynomial (A.ifft domain (extDataMatrix.row cell.row.toNat))
        (domain.element cell.col.toNat) = some witness ∧
      S.openWitness witness = some proof ∧ S.proofToBytes proof = some proofBytes ∧
      (toPoly (A.ifft domain (extDataMatrix.row cell.row.toNat))).eval (domain.element cell.col.toNat) = value ∧
      A.toBytes value = some valueBytes ∧ bytes = proofBytes.val ++ valueBytes.val := by
  have hrows : nrows < 2 ^ 16 := hheight ▸ extDims.rows.property.2
  have hcols : ncols < 2 ^ 16 := hwidth ▸ extDims.cols.property.2
  simp only [cellProof, Except.bind_eq_ok, Run.okOr_eq_ok, Run.index_eq_ok, Except.pure_eq_ok, Except.ok.injEq] at h
  obtain ⟨⟨row, rIndex, cIndex⟩, hcellRow, -, -, point, hpoint, witness, hwitness, proof, hproof, proofBytes,
    hproofBytes, value, hvalue, valueBytes, hvalueBytes, rfl⟩ := h
  obtain ⟨rfl, rfl, hrow, -, rfl⟩ := getCellRow_eq_ok hheight hwidth hcellRow
  have hcol : cell.col.toNat < domain.size := by
    rw [← domain.length_elements]
    exact (List.getElem?_eq_some_iff.mp hpoint).1
  rw [domain.getElem?_elements hcol, Option.some.injEq] at hpoint
  subst hpoint
  rw [hheight, getExtDataMatrix_eq hrows hrow ((hsize ▸ hcol).trans hcols), Run.unwrap_eq_ok,
    ← extDataMatrix.getElem?_row hrow] at hvalue
  have heval := A.eval_ifft hdomain (by rw [extDataMatrix.length_row hrow, hsize]) hvalue
  exact ⟨witness, proof, proofBytes, value, valueBytes, hwitness, hproof, hproofBytes, heval, hvalueBytes, rfl⟩

/-- The bytes of a cell are a proof and a value. -/
theorem length_of_cellProof {dims extDims : Dimensions} {domain : EvaluationDomain} {cell : Cell} {bytes : List UInt8}
    (h : cellProof b A S blockDims extDataMatrix dims extDims domain cell = .ok bytes) :
    bytes.length = sproofSize := by
  simp only [cellProof, Except.bind_eq_ok, Except.pure_eq_ok, Except.ok.injEq] at h
  obtain ⟨-, -, -, -, -, -, -, -, -, -, proofBytes, -, -, -, valueBytes, -, rfl⟩ := h
  rw [List.length_append, proofBytes.property, valueBytes.property]
  rfl

/-- A chunk of the proofs is that of its cell. -/
theorem exists_cellProof {cells : List Cell} {bytes : List UInt8}
    (h : buildProof b A S blockDims extDataMatrix cells = .ok bytes) {i : ℕ} {cell : Cell}
    (hcell : cells[i]? = some cell) {content : List UInt8} (hcontent : (chunksExact sproofSize bytes)[i]? = some content) :
    ∃ dims extDims domain, makeDims blockDims = .ok dims ∧ dims.extend rowExtension colExtension = some extDims ∧
      A.newDomain dims.width = some domain ∧
      cellProof b A S blockDims extDataMatrix dims extDims domain cell = .ok content := by
  simp only [buildProof, Except.bind_eq_ok, Run.okOr_eq_ok, Except.pure_eq_ok, Except.ok.injEq] at h
  obtain ⟨dims, hdims, extDims, hextDims, domain, hdomain, results, hresults, rfl⟩ := h
  rw [runAll_eq_ok_iff, List.forall₂_map_left_iff] at hresults
  have hlength : ∀ chunk ∈ results, chunk.length = sproofSize := by
    intro chunk hchunk
    obtain ⟨cell', -, hproof⟩ := Except.exists_of_mem_forall₂ hresults hchunk
    exact length_of_cellProof hproof
  rw [chunksExact_flatten (by decide) hlength] at hcontent
  obtain ⟨cell', hcell', hproof⟩ := Except.exists_of_getElem?_forall₂ hresults hcontent
  rw [hcell, Option.some.injEq] at hcell'
  subst hcell'
  exact ⟨dims, extDims, domain, hdims, hextDims, hdomain, hproof⟩

end Agreement

/-! ### The cells that can be opened -/

section OpenCell

variable {C P : Type} {nrows ncols : ℕ} {b : Build} {A : Ark} {S : CellScheme C P} {blockDims : BlockDimensions}
  {extDataMatrix : DMatrix ArkScalar nrows ncols}

/-- The proof and the value of a cell of the matrix, when it can be opened. -/
def openCell (A : Ark) (S : CellScheme C P) (extDataMatrix : DMatrix ArkScalar nrows ncols) (cell : Cell) :
    Option (List.Vector UInt8 commitmentSize × Chunk) := do
  guard (cell.row.toNat < nrows ∧ cell.col.toNat < ncols)
  let domain ← A.newDomain ncols
  let witness ← S.computeWitnessPolynomial (A.ifft domain (extDataMatrix.row cell.row.toNat))
    (domain.element cell.col.toNat)
  let proof ← S.openWitness witness
  let proofBytes ← S.proofToBytes proof
  let value ← extDataMatrix.get cell.row.toNat cell.col.toNat
  let valueBytes ← A.toBytes value
  return (proofBytes, valueBytes)

/-- The row of a cell of the matrix, and an error for any other cell. -/
theorem getCellRow_eq {extDims : Dimensions} (hheight : extDims.height = nrows) (hwidth : extDims.width = ncols)
    (hcols : blockDims.cols.toNat = ncols) (cell : Cell) : getCellRow blockDims extDataMatrix extDims cell =
      if cell.row.toNat < nrows ∧ cell.col.toNat < ncols then
        .ok (extDataMatrix.row cell.row.toNat, cell.row.toNat, cell.col.toNat)
      else Run.fail .indexOutOfRange := by
  have hrows : nrows < 2 ^ 16 := hheight ▸ extDims.rows.property.2
  have hlt : ncols < 2 ^ 16 := hwidth ▸ extDims.cols.property.2
  have hguard : (decide (cell.row.toNat < extDims.height ∧ cell.col < blockDims.cols)) =
      decide (cell.row.toNat < nrows ∧ cell.col.toNat < ncols) := by
    rw [decide_eq_decide, hheight, UInt32.lt_iff_toNat_lt, hcols]
  split_ifs with hcell
  · have hvalues : ∀ j ∈ List.range extDims.width, ∃ value,
        getExtDataMatrix extDataMatrix extDims.height cell.row.toNat j = .ok value := by
      intro j hj
      rw [List.mem_range, hwidth] at hj
      obtain ⟨value, hvalue⟩ := extDataMatrix.exists_get hcell.1 hj
      exact ⟨value, by rw [hheight, getExtDataMatrix_eq hrows hcell.1 (hj.trans hlt), hvalue, Run.unwrap_some]⟩
    obtain ⟨row, hrow⟩ := Except.exists_mapM hvalues
    have hok : getCellRow blockDims extDataMatrix extDims cell = .ok (row, cell.row.toNat, cell.col.toNat) := by
      simp only [getCellRow, hguard, decide_eq_true hcell, Run.ensure_true, Except.ok_bind, hrow, Except.pure_eq_ok]
    obtain ⟨-, -, -, -, rfl⟩ := getCellRow_eq_ok hheight hwidth hok
    exact hok
  · simp only [getCellRow, hguard, decide_eq_false hcell]
    rfl

/-- **What a closure computes** is the proof and the value of its cell, where the row is as long as its
domain or nothing checks it. -/
theorem cellProof_eq_ok_iff {dims extDims : Dimensions} {domain : EvaluationDomain} (hheight : extDims.height = nrows)
    (hwidth : extDims.width = ncols) (hcols : blockDims.cols.toNat = ncols) (hdims : dims.width = ncols)
    (hdomain : A.newDomain ncols = some domain) {cell : Cell} {bytes : List UInt8} :
    cellProof b A S blockDims extDataMatrix dims extDims domain cell = .ok bytes ↔
      (b = .wrapping ∨ ncols = nextPowerOfTwo ncols) ∧
        ∃ proof value, openCell A S extDataMatrix cell = some (proof, value) ∧ bytes = proof.val ++ value.val := by
  have hrows : nrows < 2 ^ 16 := hheight ▸ extDims.rows.property.2
  have hlt : ncols < 2 ^ 16 := hwidth ▸ extDims.cols.property.2
  unfold cellProof openCell
  rw [getCellRow_eq hheight hwidth hcols]
  split_ifs with hcell
  · have hpoint : (Run.index domain.elements cell.col.toNat : Run KateError _) = .ok (domain.element cell.col.toNat) := by
      rw [Run.index_eq_ok]
      exact domain.getElem?_elements (hcell.2.trans_le (A.size_newDomain hdomain ▸ le_nextPowerOfTwo ncols))
    simp only [Except.ok_bind, extDataMatrix.length_row hcell.1, hdims, hheight, hpoint,
      getExtDataMatrix_eq hrows hcell.1 (hcell.2.trans hlt), hdomain, guard, if_pos hcell, Option.pure_def,
      Option.bind_eq_bind, Option.bind_some, Option.bind_eq_some_iff, Except.bind_eq_ok, Run.assert_eq_ok,
      Run.okOr_eq_ok, Run.unwrap_eq_ok, decide_eq_true_eq, Except.pure_eq_ok, Except.ok.injEq, Option.some.injEq,
      Prod.mk.injEq]
    constructor
    · rintro ⟨-, hassert, witness, hwitness, proof, hproof, proofBytes, hproofBytes, value, hvalue, valueBytes,
        hvalueBytes, rfl⟩
      exact ⟨hassert, proofBytes, valueBytes, ⟨witness, hwitness, proof, hproof, proofBytes, hproofBytes, value, hvalue,
        valueBytes, hvalueBytes, rfl, rfl⟩, rfl⟩
    · rintro ⟨hassert, _, _, ⟨witness, hwitness, proof, hproof, proofBytes, hproofBytes, value, hvalue, valueBytes,
        hvalueBytes, rfl, rfl⟩, rfl⟩
      exact ⟨(), hassert, witness, hwitness, proof, hproof, proofBytes, hproofBytes, value, hvalue, valueBytes,
        hvalueBytes, rfl⟩
  · refine iff_of_false ?_ ?_
    · intro h
      cases h
    · rintro ⟨-, proof, value, h, -⟩
      rw [guard, if_neg hcell] at h
      cases h

end OpenCell

/-- A call returns bytes for cells that can be opened, those of each cell in its place. -/
theorem exists_buildProof {C P : Type} {b : Build} {A : Ark} {S : CellScheme C P} {blockDims : BlockDimensions}
    {nrows ncols : ℕ} {extDataMatrix : DMatrix ArkScalar nrows ncols} {dims extDims : Dimensions}
    (hdims : makeDims blockDims = .ok dims) (hextDims : dims.extend rowExtension colExtension = some extDims)
    (hheight : extDims.height = nrows) (hwidth : extDims.width = ncols) {domain : EvaluationDomain}
    (hdomain : A.newDomain ncols = some domain) (hpower : ncols = nextPowerOfTwo ncols) {cells : List Cell}
    (hopen : ∀ cell ∈ cells, (openCell A S extDataMatrix cell).isSome) :
    ∃ bytes, buildProof b A S blockDims extDataMatrix cells = .ok bytes ∧ ∀ (i : ℕ) cell, cells[i]? = some cell →
      ∃ content : List.Vector UInt8 sproofSize, (chunksExact sproofSize bytes)[i]? = some content.val := by
  obtain ⟨-, hdimsWidth⟩ := makeDims_eq_ok hdims
  have hcols : dims.width = ncols := by
    rw [← hwidth, Dimensions.width, Dimensions.width, ((Dimensions.extend_eq_some dims).mp hextDims).2]
    exact (Nat.mul_one _).symm
  have hproof : ∀ cell ∈ cells, ∃ bytes, cellProof b A S blockDims extDataMatrix dims extDims domain cell = .ok bytes := by
    intro cell hcell
    obtain ⟨⟨proof, value⟩, h⟩ := Option.isSome_iff_exists.mp (hopen cell hcell)
    exact ⟨_, (cellProof_eq_ok_iff hheight hwidth (hdimsWidth.symm.trans hcols) hcols hdomain).mpr
      ⟨Or.inr hpower, proof, value, h, rfl⟩⟩
  obtain ⟨results, hresults⟩ := Except.exists_forall₂ hproof
  have hlength : ∀ chunk ∈ results, chunk.length = sproofSize := by
    intro chunk hchunk
    obtain ⟨cell, -, h⟩ := Except.exists_of_mem_forall₂ hresults hchunk
    exact length_of_cellProof h
  have hrun := runAll_eq_ok_iff.mpr (List.forall₂_map_left_iff.mpr hresults)
  refine ⟨results.flatten, ?_, fun i cell hcell => ?_⟩
  · simp only [buildProof, hdims, hextDims, hcols, hdomain, Run.okOr_some, Except.ok_bind, hrun, Except.pure_eq_ok]
  · have hlt : i < results.length := hresults.length_eq ▸ (List.getElem?_eq_some_iff.mp hcell).1
    rw [chunksExact_flatten (by decide) hlength]
    exact ⟨⟨results[i], hlength _ (List.getElem_mem hlt)⟩, List.getElem?_eq_getElem hlt⟩

/-- There are commitments to the rows of a matrix when each of them can be committed to. -/
theorem exists_buildCommitments {C P : Type} {A : Ark} {S : Scheme C P} {blockDims : BlockDimensions} {nrows ncols : ℕ}
    {extMatrix : DMatrix ArkScalar nrows ncols} (hrows : blockDims.rows.toNat * extensionFactor = nrows)
    {domain : EvaluationDomain} (hdomain : A.newDomain blockDims.cols.toNat = some domain)
    (hcommit : ∀ y < nrows, ∃ c bytes, S.commit (A.ifft domain (extMatrix.row y)) = some c ∧ S.toBytes c = some bytes) :
    ∃ commitments, buildCommitments A S.toCommitter blockDims extMatrix = .ok commitments ∧ ∀ y < nrows,
      ∃ commitment : List.Vector UInt8 commitmentSize,
        (chunksExact commitmentSize commitments)[y]? = some commitment.val := by
  have hbytes : ∀ y ∈ List.range nrows, ∃ bytes, ∃ c, (do
      let row ← extMatrix.getRow y
      commitRow A S.toCommitter domain row) = .ok c ∧
        (Run.okOr .multiproofError (S.toBytes c) : Run KateError _) = .ok bytes := by
    intro y hy
    obtain ⟨c, bytes, hc, htoBytes⟩ := hcommit y (List.mem_range.mp hy)
    refine ⟨bytes, c, ?_, Run.okOr_eq_ok.mpr htoBytes⟩
    simp only [DMatrix.getRow, Run.assert, decide_eq_true (List.mem_range.mp hy), if_true, Except.ok_bind,
      Except.pure_eq_ok, commitRow, hc, Run.okOr_some]
  obtain ⟨bs, hbs⟩ := Except.exists_forall₂ hbytes
  obtain ⟨cs, hcs, hall⟩ := Except.exists_mapM_mapM_iff.mpr hbs
  have hlength : ∀ chunk ∈ bs, chunk.length = commitmentSize := by
    intro chunk hchunk
    obtain ⟨c, -, hc⟩ := Except.exists_of_mem_mapM hall hchunk
    exact S.length_toBytes (Run.okOr_eq_ok.mp hc)
  refine ⟨bs.flatten, ?_, fun y hy => ?_⟩
  · simp only [buildCommitments, hrows, hdomain, Run.okOr_some, Except.ok_bind, hcs, hall, Except.pure_eq_ok]
  · have hlt : y < bs.length := by rwa [← hbs.length_eq, List.length_range]
    rw [chunksExact_flatten (by decide) hlength]
    exact ⟨⟨bs[y], hlength _ (List.getElem_mem hlt)⟩, List.getElem?_eq_getElem hlt⟩

/-- **What the node proves, a light client verifies.** The content that `build_proof` returns for a cell
is accepted with the commitment that is made for the cell's row. -/
theorem verifyV2_buildProof {C P : Type} {b : Build} {A : Ark} {S : CellScheme C P} {blockDims : BlockDimensions}
    (hcols : isPowerOfTwo blockDims.cols.toNat = true) {nrows ncols : ℕ} (hnrows : nrows = 2 * blockDims.rows.toNat)
    (hncols : ncols = blockDims.cols.toNat) {extMatrix : DMatrix ArkScalar nrows ncols} {cells : List Cell}
    {bytes commitments : List UInt8} (hproofs : buildProof b A S blockDims extMatrix cells = .ok bytes)
    (hcommitments : buildCommitments A S.toCommitter blockDims extMatrix = .ok commitments) {i : ℕ} {cell : Cell}
    (hcell : cells[i]? = some cell) {content : List.Vector UInt8 80}
    (hcontent : (chunksExact sproofSize bytes)[i]? = some content.val)
    {commitment : List.Vector UInt8 commitmentSize}
    (hcommitment : (chunksExact commitmentSize commitments)[cell.row.toNat]? = some commitment.val)
    {dimensions : Dimensions} (hwidth : dimensions.width = blockDims.cols.toNat) :
    verifyV2 A S.toParsers S.verify dimensions commitment ⟨⟨cell.row.toNat, cell.col.toNat⟩, content⟩ = .ok true := by
  obtain ⟨dims, extDims, domain, hdims, hextDims, hdomain, hproof⟩ := exists_cellProof hproofs hcell hcontent
  obtain ⟨hheight, hdimsWidth⟩ := makeDims_eq_ok hdims
  obtain ⟨hextRows, hextCols⟩ := (Dimensions.extend_eq_some dims).mp hextDims
  have hextHeight : extDims.height = nrows := by
    rw [hnrows, ← hheight, Nat.mul_comm]
    exact hextRows
  have hextWidth : extDims.width = ncols := by
    rw [hncols, ← hdimsWidth]
    exact hextCols.trans (Nat.mul_one _)
  have hsize : domain.size = ncols := by
    rw [← hncols] at hcols
    rw [hdimsWidth, ← hncols] at hdomain
    exact A.size_newDomain_eq hdomain hcols
  obtain ⟨witness, proof, proofBytes, value, valueBytes, hwitness, hopen, hproofBytes, heval, hvalueBytes, hjoin⟩ :=
    cellProof_eq_ok hextHeight hextWidth hdomain hsize hproof
  obtain ⟨domain', c, hdomain', hcommit, htoBytes⟩ := exists_commitRow S.length_toBytes hcommitments hcommitment
  rw [hdimsWidth] at hdomain
  rw [hdomain, Option.some.injEq] at hdomain'
  subst hdomain'
  have hdata : SingleCell.data ⟨⟨cell.row.toNat, cell.col.toNat⟩, content⟩ = valueBytes := by
    apply Subtype.ext
    show content.val.drop commitmentSize = valueBytes.val
    rw [hjoin, List.drop_left' proofBytes.property]
  have hcellProof : SingleCell.proof ⟨⟨cell.row.toNat, cell.col.toNat⟩, content⟩ = proofBytes := by
    apply Subtype.ext
    show content.val.take commitmentSize = proofBytes.val
    rw [hjoin, List.take_left' proofBytes.property]
  rw [verifyV2_eq_true_iff]
  refine ⟨c, value, domain, proof, S.commitment_toBytes htoBytes, ?_, by rw [hwidth, hdomain], ?_, ?_⟩
  · rw [hdata]
    exact A.fromBytes_toBytes hvalueBytes
  · rw [hcellProof]
    exact S.proof_proofToBytes hproofBytes
  · rw [← heval]
    exact S.complete hcommit hwitness hopen

/-- Values at a point open every cell of a matrix. -/
theorem isSome_openCell_atPoint (t : ArkScalar) {nrows ncols : ℕ} (extDataMatrix : DMatrix ArkScalar nrows ncols)
    {domain : EvaluationDomain} (hdomain : bls12381.newDomain ncols = some domain) {cell : Cell}
    (hrow : cell.row.toNat < nrows) (hcol : cell.col.toNat < ncols) :
    (openCell bls12381 (CellScheme.atPoint t) extDataMatrix cell).isSome := by
  obtain ⟨value, hvalue⟩ := extDataMatrix.exists_get hrow hcol
  simp only [openCell, guard, hrow, hcol, and_self, if_true, hdomain, hvalue]
  rfl

/-- Every cell of the extension of two applications is opened. -/
theorem isSome_openCell_twoApps {cell : Cell} (hrow : cell.row.toNat < 4) (hcol : cell.col.toNat < 4) :
    (openCell bls12381 (CellScheme.atPoint 5) twoAppsExtended.evals cell).isSome :=
  isSome_openCell_atPoint 5 twoAppsExtended.evals bls12381_newDomain_four hrow hcol

theorem isSome_openCell_two : ∀ cell ∈ ([⟨1, 2⟩, ⟨2, 3⟩] : List Cell),
    (openCell bls12381 (CellScheme.atPoint 5) twoAppsExtended.evals cell).isSome := by
  simp only [List.forall_mem_cons]
  exact ⟨isSome_openCell_twoApps (by decide) (by decide), isSome_openCell_twoApps (by decide) (by decide),
    List.forall_mem_nil _⟩

/-- Two cells of the extension of two applications: the second of them, with the commitment of its row. -/
theorem verifyV2_buildProof_two : ∃ (bytes commitments : List UInt8) (content : List.Vector UInt8 80)
    (commitment : List.Vector UInt8 commitmentSize),
    buildProof .checked bls12381 (CellScheme.atPoint 5) twoAppsDims twoAppsExtended.evals [⟨1, 2⟩, ⟨2, 3⟩] = .ok bytes ∧
    buildCommitments bls12381 (CellScheme.atPoint 5).toCommitter twoAppsDims twoAppsExtended.evals = .ok commitments ∧
    (chunksExact sproofSize bytes)[1]? = some content.val ∧
    (chunksExact commitmentSize commitments)[2]? = some commitment.val ∧
    verifyV2 bls12381 (CellScheme.atPoint 5).toParsers (CellScheme.atPoint 5).verify twoAppsGrid.dims commitment
      ⟨⟨2, 3⟩, content⟩ = .ok true := by
  obtain ⟨bytes, hproofs, hcontents⟩ := @exists_buildProof _ _ .checked _ (CellScheme.atPoint 5) twoAppsDims _ _
    twoAppsExtended.evals twoAppsGrid.dims twoAppsExtended.dims rfl rfl rfl rfl _ bls12381_newDomain_four (by decide)
    _ isSome_openCell_two
  obtain ⟨commitments, hcommitments, hchunks⟩ := @exists_buildCommitments _ _ _ (Scheme.atPoint 5) twoAppsDims _ _
    twoAppsExtended.evals rfl _ bls12381_newDomain_four fun y _ => ⟨_, _, rfl, rfl⟩
  obtain ⟨content, hcontent⟩ := hcontents 1 ⟨2, 3⟩ rfl
  obtain ⟨commitment, hcommitment⟩ := hchunks 2 (by decide)
  exact ⟨bytes, commitments, content, commitment, hproofs, hcommitments, hcontent, hcommitment,
    verifyV2_buildProof (by decide) rfl rfl hproofs hcommitments (i := 1) rfl hcontent hcommitment rfl⟩

end AvailCore
