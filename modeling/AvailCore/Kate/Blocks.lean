import AvailCore.Kate.VerifiedRows

/-!
# A block of the first interface

`par_build_commitments` of `kate/src/com.rs` makes a block in one call: a layout, the
commitments in the bytes of a header, dimensions and the extended matrix. Afterwards
`build_proof` proves its cells. This is the older interface of the crate; the newer one
makes an `EvaluationGrid`, extends it and commits to its rows.

## What is proved

What the older interface returns is a grid, extended, and the commitments to its rows
(`exists_grid_of_parBuildCommitments`). So light clients cannot tell the two apart: with
the lookup of the layout, they get the extrinsics from cells of anyone that verify against
the header, unless one of them is forged (`reconstructExtrinsics_parBuildCommitments`).
-/

namespace AvailCore

open Chunks AvailCore.Fourier

/-! ### The matrix -/

theorem hasBytes_of_toBlsScalar {A : Ark} {chunk : List UInt8} {s : ArkScalar} (h : toBlsScalar A chunk = .ok s) :
    HasBytes A s chunk := by
  unfold toBlsScalar at h
  split_ifs at h with hlen
  · exact ⟨_, A.toBytes_fromBytes (Run.okOr_eq_ok.mp h), rfl⟩
  · cases h

/-- Matrices with the same columns are the same. -/
theorem DMatrix.sigma_eq {α : Type} {nrows ncols nrows' ncols' : ℕ} {m : DMatrix α nrows ncols}
    {m' : DMatrix α nrows' ncols'} (hrows : nrows = nrows') (hcols : ncols = ncols') (h : m.columns = m'.columns) :
    (⟨nrows, ncols, m⟩ : Σ nrows ncols, DMatrix α nrows ncols) = ⟨nrows', ncols', m'⟩ := by
  subst hrows hcols
  obtain ⟨columns, _, _⟩ := m
  obtain rfl : columns = m'.columns := h
  rfl

/-- **The matrix is an extended grid**: that of the scalars of the block's chunks. -/
theorem exists_grid_of_parExtendDataMatrix {b : Build} {A : Ark} {dims : BlockDimensions}
    {chunks : List (List UInt8)} (hlength : ∀ chunk ∈ chunks, chunk.length = chunkSize)
    (hchunkSize : dims.chunkSize.toNat = chunkSize) (hrows : isPowerOfTwo dims.rows.toNat = true)
    {m : Σ nrows ncols, DMatrix ArkScalar nrows ncols} (h : parExtendDataMatrix b A dims chunks.flatten = .ok m)
    (lookup : DataLookup) : ∃ g e : EvaluationGrid, g.lookup = lookup ∧ makeDims dims = .ok g.dims ∧
      (∀ row < g.dims.height, ∀ col < g.dims.width, ∃ s, g.evals.get row col = some s ∧
        HasBytes A s (chunks.getD (row * g.dims.width + col) [])) ∧
      g.extendColumns A ⟨extensionFactor, by decide⟩ = .ok e ∧ m = ⟨e.dims.height, e.dims.width, e.evals⟩ := by
  simp only [parExtendDataMatrix, Except.bind_eq_ok, Run.okOr_eq_ok, Except.pure_eq_ok, Except.ok.injEq, hchunkSize,
    chunksExact_flatten chunkSize_pos hlength, Except.mapM_ok_iff] at h
  obtain ⟨d, hd, extDims, hextDims, -, -, scalars, hscalars, long, hlong, short, hshort, evals, hevals, -, -, ext, hext,
    rfl⟩ := h
  obtain ⟨hheight, hwidth⟩ := makeDims_eq_ok hd
  obtain ⟨hextRows, hextCols⟩ := (Dimensions.extend_eq_some d).mp hextDims
  have hextHeight : extDims.height = d.height * 2 := hextRows
  have hextWidth : extDims.width = d.width := hextCols.trans (Nat.mul_one _)
  -- as many rows as points of the larger domain
  have hsize : long.size = extDims.height := by
    obtain ⟨k, hk⟩ := exists_of_isPowerOfTwo hrows
    rw [A.size_newDomain hlong, hextHeight, hheight, hk, ← pow_succ, nextPowerOfTwo_two_pow]
  have hcolumns : ∀ column ∈ evals.columns.map fun col => A.fft long (A.ifft short col),
      column.length = extDims.height := by
    intro column hcolumn
    obtain ⟨col, -, rfl⟩ := List.mem_map.mp hcolumn
    rw [(A.isTransform hlong).length_fft, hsize]
  have hcount : (evals.columns.map fun col => A.fft long (A.ifft short col)).length = d.width := by
    rw [List.length_map, evals.length_columns]
  have hextend : ∃ e, (⟨lookup, d, evals⟩ : EvaluationGrid).extendColumns A ⟨extensionFactor, by decide⟩ = .ok e := by
    have hiter := @DMatrix.fromIterator_flatten _ KateError _ _ _ (hcount.trans hextWidth.symm) hcolumns
    refine ⟨⟨lookup, extDims, ⟨_, hcount.trans hextWidth.symm, hcolumns⟩⟩, ?_⟩
    have hextDims' : d.extend ⟨extensionFactor, by decide⟩ ⟨1, by decide⟩ = some extDims := hextDims
    simp only [EvaluationGrid.extendColumns, hextDims', hshort, hlong, hsize, Run.okOr_some, Except.ok_bind,
      decide_true, Run.ensure_true, List.flatMap_def, hiter, Except.pure_eq_ok]
  obtain ⟨e, he⟩ := hextend
  refine ⟨⟨lookup, d, evals⟩, e, rfl, hd, fun row hrow col hcol => ?_, he, ?_⟩
  · obtain ⟨s, hs⟩ := evals.exists_get hrow hcol
    refine ⟨s, hs, ?_⟩
    rw [DMatrix.get_fromRowIterator hevals hrow hcol] at hs
    obtain ⟨chunk, hchunk, hread⟩ := Except.exists_of_getElem?_forall₂ hscalars hs
    rw [List.getD_eq_getElem?_getD, hchunk]
    exact hasBytes_of_toBlsScalar hread
  · obtain ⟨-, heheight, hewidth, short', long', hshort', hlong', -, hecolumns⟩ := EvaluationGrid.extendColumns_eq_ok he
    rw [DMatrix.fromIterator_flatten hcount hcolumns, Except.ok.injEq] at hext
    subst hext
    have hlongSame : long = long' := by
      rw [heheight, ← hextHeight, hlong] at hlong'
      exact Option.some.inj hlong'
    refine DMatrix.sigma_eq (hextHeight.trans heheight.symm) hewidth.symm ?_
    rw [hecolumns, ← hlongSame, ← Option.some.inj (hshort.symm.trans hshort')]

/-! ### What it carries -/

/-- The rows and the columns of a block are powers of two. -/
theorem twoPow_of_getBlockDimensions {maximumBlockSize : Bool} {blockSize maxRows maxCols : UInt32} {d : BlockDimensions}
    (h : getBlockDimensions maximumBlockSize chunkSize blockSize maxRows maxCols = .ok d) :
    isPowerOfTwo d.rows.toNat = true ∧ isPowerOfTwo d.cols.toNat = true := by
  have hlimits := h
  simp only [getBlockDimensions, Except.bind_eq_ok, Run.ensure_eq_ok, Run.okOr_eq_ok] at hlimits
  obtain ⟨-, hrows, -, hcols, full, hfull, -, -, hreturn⟩ := hlimits
  obtain ⟨hfullRows, hfullCols, -⟩ := BlockDimensions.shape_of_new hfull
  have hfullPow : isPowerOfTwo full.rows.toNat = true ∧ isPowerOfTwo full.cols.toNat = true := by
    rw [hfullRows, hfullCols]
    exact ⟨hrows, hcols⟩
  cases maximumBlockSize with
  | true =>
    rw [if_pos (Or.inr rfl)] at hreturn
    cases hreturn
    exact hfullPow
  | false =>
    obtain ⟨r, hr⟩ := exists_of_isPowerOfTwo hrows
    obtain ⟨c, hc⟩ := exists_of_isPowerOfTwo hcols
    by_cases hpart : blockSize.toNat = maxRows.toNat * maxCols.toNat * 32
    · obtain ⟨-, -, hshape, -⟩ := (getBlockDimensions_shape hr hc).mp h
      rw [if_pos hpart, Prod.mk.injEq] at hshape
      rw [hshape.1, hshape.2]
      exact ⟨hrows, hcols⟩
    · obtain ⟨i, j, hi, hj, -⟩ := shape_of_getBlockDimensions hr hc h hpart
      rw [hi, hj]
      exact ⟨isPowerOfTwo_two_pow i, isPowerOfTwo_two_pow j⟩

theorem twoPow_of_flattenAndPadBlock {b : Build} {maximumBlockSize : Bool} {K : Codec AppData} {rng : Rng}
    {maxRows maxCols : UInt32} {extrinsics : List AppExtrinsic} {rngSeed : Seed} {layout : List (AppId × UInt32)}
    {data : List UInt8} {dims : BlockDimensions}
    (h : flattenAndPadBlock b maximumBlockSize K rng chunkSize maxRows maxCols extrinsics rngSeed =
      .ok (layout, data, dims)) : isPowerOfTwo dims.rows.toNat = true ∧ isPowerOfTwo dims.cols.toNat = true := by
  simp only [flattenAndPadBlock, Except.bind_eq_ok, Except.pure_eq_ok, Except.ok.injEq, Prod.mk.injEq] at h
  obtain ⟨_, -, _, -, _, hdims, -, -, -, -, -, -, rfl⟩ := h
  exact twoPow_of_getBlockDimensions hdims

/-- The random chunks at the end of a block. -/
def randomChunks (random : ℕ → List.Vector UInt8 dataChunkSize) (n : ℕ) : List (List UInt8) :=
  (List.range n).map fun i => padWithZeroes (random i).val chunkSize

/-- What there is to know of a block that is flattened: whole chunks, those of its groups and random ones. -/
structure Flattened (K : Codec AppData) (random : ℕ → List.Vector UInt8 dataChunkSize) (extrinsics : List AppExtrinsic)
    (layout : List (AppId × UInt32)) (data : List UInt8) (dims : BlockDimensions)
    (held : List ((AppId × AppData) × List (List UInt8))) (n : ℕ) : Prop where
  groups : held.map Prod.fst = groupsOf extrinsics
  holds : ∀ x ∈ held, Holds K x.1 x.2
  layout : ∃ L : Layout, L.items = chunkCounts held ∧ L.items = layout.map (fun x => (x.1, x.2.toNat)) ∧
    total L.items * chunkSize < 2 ^ 32
  data : data = (held.flatMap Prod.snd ++ randomChunks random n).flatten
  size : (held.flatMap Prod.snd ++ randomChunks random n).length = dims.rows.toNat * dims.cols.toNat
  chunkSize : dims.chunkSize.toNat = chunkSize

theorem length_of_mem_randomChunks {random : ℕ → List.Vector UInt8 dataChunkSize} {n : ℕ} {chunk : List UInt8}
    (h : chunk ∈ randomChunks random n) : chunk.length = chunkSize := by
  obtain ⟨i, -, rfl⟩ := List.mem_map.mp h
  exact length_resizeTo ..

/-- The bytes of the groups are those of their chunks. -/
theorem flatMap_filledUp {K : Codec AppData} {groups : List (AppId × AppData)}
    {padded : List ((AppId × UInt32) × List (List UInt8))} (h : List.Forall₂ (PadsTo K) groups padded) :
    (filledUp groups padded).flatMap Prod.snd = padded.flatMap fun p => p.2.map (padToChunk chunkSize) := by
  induction h with
  | nil => rfl
  | cons _ _ ih =>
    rw [filledUp, List.zipWith_cons_cons, List.flatMap_cons, List.flatMap_cons]
    exact congrArg (_ ++ ·) ih

theorem exists_flattened {b : Build} {maximumBlockSize : Bool} {K : Codec AppData} {rng : Rng} {maxRows maxCols : UInt32}
    {extrinsics : List AppExtrinsic} {rngSeed : Seed} {layout : List (AppId × UInt32)} {data : List UInt8}
    {dims : BlockDimensions}
    (hshort : ∀ group ∈ groupsOf extrinsics, ∀ bytes, K.encode group.2 = some bytes → bytes.length < 2 ^ 32 - 32)
    (h : flattenAndPadBlock b maximumBlockSize K rng chunkSize maxRows maxCols extrinsics rngSeed =
      .ok (layout, data, dims)) : ∃ held n, Flattened K (rng rngSeed) extrinsics layout data dims held n := by
  obtain ⟨padded, hpadded, rfl, hlt, hle, hchunkSize, rfl⟩ := flattenAndPadBlock_eq_ok h
  have hpads := forall₂_padsTo hpadded hshort
  have hholds := holds_filledUp hpads
  have hbytes := flatMap_filledUp hpads
  set n := (dims.size - (padded.flatMap fun p => p.2.map (padToChunk chunkSize)).flatten.length) / chunkSize with hn
  have hlength : ∀ chunk ∈ (filledUp (groupsOf extrinsics) padded).flatMap Prod.snd, chunk.length = chunkSize := by
    intro chunk hchunk
    obtain ⟨x, hx, hchunk⟩ := List.mem_flatMap.mp hchunk
    exact (hholds x hx).length_chunk chunk hchunk
  rw [← hbytes, length_flatten_uniform hlength] at hlt hle hn
  have htotal := total_chunkCounts (filledUp (groupsOf extrinsics) padded)
  have hcount : total (chunkCounts (filledUp (groupsOf extrinsics) padded)) < 2 ^ 32 := by
    rw [htotal]
    exact (Nat.le_mul_of_pos_right _ chunkSize_pos).trans_lt hlt
  obtain ⟨L, hitems, hlayout⟩ := exists_layout_filledUp hpads (groupsOf_sorted extrinsics) hcount
  have hsize : dims.size = dims.rows.toNat * dims.cols.toNat * chunkSize := by
    rw [dims.size_eq, hchunkSize]
    rfl
  refine ⟨filledUp (groupsOf extrinsics) padded, n, map_fst_filledUp hpads, hholds, ⟨L, hitems, hlayout, ?_⟩, ?_, ?_, ?_⟩
  · rwa [hitems, htotal]
  · rw [List.flatten_append, hbytes]
    rfl
  · rw [List.length_append, randomChunks, List.length_map, List.length_range, hn, hsize, ← Nat.sub_mul,
      Nat.mul_div_cancel _ chunkSize_pos]
    rw [hsize] at hle
    exact Nat.add_sub_cancel' (Nat.le_of_mul_le_mul_right hle chunkSize_pos)
  · rw [hchunkSize]
    rfl

/-! ### What is published -/

section Published

variable {C P : Type} {A : Ark} {e : EvaluationGrid} {dims : BlockDimensions}
  (hheight : e.dims.height = dims.rows.toNat * extensionFactor) (hwidth : e.dims.width = dims.cols.toNat)
include hheight hwidth

/-- The header has the commitments to the rows of the extended grid. -/
theorem commitmentsBytes_of_buildCommitments {S : Committer C} {header : List UInt8}
    (h : buildCommitments A S dims e.evals = .ok header) :
    ∃ published, e.commitmentsBytes A S = .ok published ∧ header = published.flatten := by
  simp only [buildCommitments, Except.bind_eq_ok, Run.okOr_eq_ok, Except.pure_eq_ok, Except.ok.injEq, ← hheight,
    ← hwidth] at h
  obtain ⟨domain, hdomain, cs, hcs, published, hpublished, rfl⟩ := h
  refine ⟨published, ?_, rfl⟩
  have hcommitted : ((List.range e.dims.height).map fun y => A.ifft domain (e.evals.row y)).mapM (fun poly =>
      (Run.okOr .multiproofError (S.commit poly) : Run KateError C)) = .ok cs := by
    rw [Except.mapM_ok_iff, List.forall₂_map_left_iff]
    refine (Except.mapM_ok_iff.mp hcs).imp fun y c hrow => ?_
    simp only [DMatrix.getRow, commitRow, Except.bind_eq_ok, Except.pure_eq_ok, Except.ok.injEq] at hrow
    obtain ⟨_, ⟨-, -, rfl⟩, hcommit⟩ := hrow
    exact hcommit
  have hbytes : cs.mapM (fun c => (Run.unwrap (S.toBytes c) : Run KateError _)) = .ok published := by
    rw [Except.mapM_ok_iff]
    exact (Except.mapM_ok_iff.mp hpublished).imp fun c bytes hc => Run.unwrap_eq_ok.mpr (Run.okOr_eq_ok.mp hc)
  simp only [EvaluationGrid.commitmentsBytes, EvaluationGrid.makePolynomialGrid, hdomain, Run.okOr_some,
    Except.ok_bind, Except.pure_eq_ok, PolynomialGrid.commitments, hcommitted, hbytes]

/-- A node that proves each cell can open the extended grid. -/
theorem opens_of_buildProof {b : Build} {S : CellScheme C P} (hcols : isPowerOfTwo dims.cols.toNat = true)
    (h : ∀ cell : Cell, cell.row.toNat < e.dims.height → cell.col.toNat < e.dims.width →
      ∃ bytes, buildProof b A S dims e.evals [cell] = .ok bytes) : e.Opens A S := by
  intro domain hdomain row hrow col hcol
  have hrow' : (UInt32.ofNat row).toNat = row := toNat_ofNat_of_lt (hrow.trans (e.dims.rows.property.2.trans (by decide)))
  have hcol' : (UInt32.ofNat col).toNat = col := toNat_ofNat_of_lt (hcol.trans (e.dims.cols.property.2.trans (by decide)))
  obtain ⟨bytes, hbytes⟩ := h ⟨UInt32.ofNat row, UInt32.ofNat col⟩ (by rwa [hrow']) (by rwa [hcol'])
  simp only [buildProof, Except.bind_eq_ok, Run.okOr_eq_ok, List.map_cons, List.map_nil, runAll_eq_ok_iff] at hbytes
  obtain ⟨d, hd, extDims, hextDims, domain', hdomain', results, hresults, -⟩ := hbytes
  obtain ⟨content, -, hproof, -, -⟩ := List.forall₂_cons_left_iff.mp hresults
  obtain ⟨hdHeight, hdWidth⟩ := makeDims_eq_ok hd
  obtain ⟨hextRows, hextCols⟩ := (Dimensions.extend_eq_some d).mp hextDims
  have hextHeight : extDims.height = e.dims.height := by
    rw [hheight, ← hdHeight]
    exact hextRows
  have hextWidth : extDims.width = e.dims.width := by
    rw [hwidth, ← hdWidth]
    exact hextCols.trans (Nat.mul_one _)
  obtain rfl : domain = domain' := by
    rw [hdWidth, ← hwidth] at hdomain'
    exact Option.some.inj (hdomain.symm.trans hdomain')
  have hsize : domain.size = e.dims.width := A.size_newDomain_eq hdomain (hwidth ▸ hcols)
  obtain ⟨witness, proof, -, -, -, hwitness, hopen, -⟩ := cellProof_eq_ok hextHeight hextWidth hdomain' hsize hproof
  rw [hrow', hcol'] at hwitness
  exact ⟨proof, by rw [openAt, hwitness, Run.okOr_some, Except.ok_bind, hopen, Run.okOr_some]⟩

end Published

/-- What a call of the older interface returns is what one makes of a grid that carries the extrinsics. -/
structure PublishedAs {C : Type} (A : Ark) (K : Codec AppData) (S : Committer C) (extrinsics : List AppExtrinsic)
    (layout : List (AppId × UInt32)) (header : List UInt8) (dims : BlockDimensions)
    (m : Σ nrows ncols, DMatrix ArkScalar nrows ncols) (g e : EvaluationGrid) (published : List (List UInt8)) :
    Prop where
  lookup : DataLookup.fromIdAndLenIter (layout.map fun x => (x.1, x.2.toNat)) = .ok g.lookup
  len_lt : g.lookup.len.toNat * chunkSize < 2 ^ 32
  carries : ∃ held filler, g.Carries A K held filler ∧ held.map Prod.fst = groupsOf extrinsics
  extended : g.extendColumns A ⟨extensionFactor, by decide⟩ = .ok e
  matrix : m = ⟨e.dims.height, e.dims.width, e.evals⟩
  commitments : e.commitmentsBytes A S = .ok published
  header : header = published.flatten
  cols : isPowerOfTwo dims.cols.toNat = true
  dims : makeDims dims = .ok g.dims

/-- **The older interface makes a grid, extends it and commits to its rows.** -/
theorem exists_grid_of_parBuildCommitments {C : Type} {b : Build} {maximumBlockSize : Bool} {A : Ark} {S : Committer C}
    {K : Codec AppData} {rng : Rng} {maxRows maxCols : UInt32} {extrinsics : List AppExtrinsic} {rngSeed : Seed}
    {layout : List (AppId × UInt32)} {header : List UInt8} {dims : BlockDimensions}
    {m : Σ nrows ncols, DMatrix ArkScalar nrows ncols}
    (hshort : ∀ group ∈ groupsOf extrinsics, ∀ bytes, K.encode group.2 = some bytes → bytes.length < 2 ^ 32 - 32)
    (h : parBuildCommitments b maximumBlockSize A S K rng chunkSize maxRows maxCols extrinsics rngSeed =
      .ok (layout, header, dims, m)) :
    ∃ g e published, PublishedAs A K S extrinsics layout header dims m g e published := by
  simp only [parBuildCommitments, Except.bind_eq_ok, Except.pure_eq_ok, Except.ok.injEq, Prod.mk.injEq] at h
  obtain ⟨⟨layout', data, dims'⟩, hflatten, m', hm, header', hheader, rfl, rfl, rfl, rfl⟩ := h
  obtain ⟨hrows, hcols⟩ := twoPow_of_flattenAndPadBlock hflatten
  obtain ⟨held, n, hflattened⟩ := exists_flattened hshort hflatten
  obtain ⟨L, hitems, hlayout, hlt⟩ := hflattened.layout
  have hlength : ∀ chunk ∈ held.flatMap Prod.snd ++ randomChunks (rng rngSeed) n, chunk.length = chunkSize := by
    intro chunk hchunk
    rcases List.mem_append.mp hchunk with hchunk | hchunk
    · obtain ⟨x, hx, hchunk⟩ := List.mem_flatMap.mp hchunk
      exact (hflattened.holds x hx).length_chunk chunk hchunk
    · exact length_of_mem_randomChunks hchunk
  rw [hflattened.data] at hm
  obtain ⟨g, e, hlookup, hd, hcell, he, rfl⟩ :=
    exists_grid_of_parExtendDataMatrix hlength hflattened.chunkSize hrows hm L.lookup
  obtain ⟨hheight, hwidth⟩ := makeDims_eq_ok hd
  obtain ⟨-, heheight, hewidth, -⟩ := EvaluationGrid.extendColumns_eq_ok he
  obtain ⟨published, hcommit, rfl⟩ := commitmentsBytes_of_buildCommitments (heheight.trans (congrArg (· * 2) hheight))
    (hewidth.trans hwidth) hheader
  have hcarries : g.Carries A K held (randomChunks (rng rngSeed) n) := by
    refine ⟨hflattened.holds, ?_, fun _ => length_of_mem_randomChunks, ?_, hcell, ?_⟩
    · rw [hlookup]
      exact fromIdAndLenIter_eq_ok_iff.mpr ⟨L, hitems, rfl⟩
    · rw [hflattened.size, ← hheight, ← hwidth]
      rfl
    · rw [hheight]
      exact exists_of_isPowerOfTwo hrows
  refine ⟨g, e, published, ?_, ?_, ⟨held, _, hcarries, hflattened.groups⟩, he, rfl, hcommit, rfl, hcols, hd⟩
  · rw [hlookup]
    exact fromIdAndLenIter_eq_ok_iff.mpr ⟨L, hlayout, rfl⟩
  · rw [hlookup, L.lookup_len, toNat_ofNat_of_lt L.total_lt]
    exact hlt

/-- **A client reads a block of the older interface like one of the newer.** The lookup is made from the layout, the
commitments are split from the header, and the node can prove each cell: from verified cells in every column the client
gets the extrinsics of the block when it has enough of them, in distinct positions, and an error else. Or one of the
cells is forged. -/
theorem reconstructExtrinsics_parBuildCommitments {C P : Type} {b : Build} {maximumBlockSize : Bool} {A : Ark}
    (hA : A.HasHalves) (R : Runtime) (K : Codec AppData) {rng : Rng} (S : CellScheme C P) {maxRows maxCols : UInt32}
    {extrinsics : List AppExtrinsic} {rngSeed : Seed} {layout : List (AppId × UInt32)} {header : List UInt8}
    {dims : BlockDimensions} {m : Σ nrows ncols, DMatrix ArkScalar nrows ncols}
    (hshort : ∀ group ∈ groupsOf extrinsics, ∀ bytes, K.encode group.2 = some bytes → bytes.length < 2 ^ 32 - 32)
    (h : parBuildCommitments b maximumBlockSize A S.toCommitter K rng chunkSize maxRows maxCols extrinsics rngSeed =
      .ok (layout, header, dims, m))
    (hproofs : ∀ cell : Cell, cell.row.toNat < m.1 → cell.col.toNat < m.2.1 →
      ∃ bytes, buildProof b A S dims m.2.2 [cell] = .ok bytes)
    {d : Dimensions} (hd : makeDims dims = .ok d) {commitments : List (List.Vector UInt8 commitmentSize)}
    (hheader : fromSlice header = .ok commitments)
    {cells : List SingleCell} (hcells : ∀ c ∈ cells, Sampled A S d (commitments.map fun c => c.val) c)
    (hsome : ∀ col < d.width, ∃ c ∈ cells, c.position.col = col) :
    ∃ g e published, PublishedAs A K S.toCommitter extrinsics layout header dims m g e published ∧
      ((∃ c ∈ cells, Forged A S e published c) ∨
      (EnoughOrNone d (cells.map SingleCell.toDataCell) →
        reconstructExtrinsics A R K g.lookup d (cells.map SingleCell.toDataCell) = .ok (groupsOf extrinsics)) ∧
      (¬ EnoughOrNone d (cells.map SingleCell.toDataCell) →
        ∃ error, reconstructExtrinsics A R K g.lookup d (cells.map SingleCell.toDataCell) = Run.fail error)) := by
  obtain ⟨g, e, published, hpublished⟩ := exists_grid_of_parBuildCommitments hshort h
  refine ⟨g, e, published, hpublished, ?_⟩
  obtain ⟨held, filler, hcarries, hgroups⟩ := hpublished.carries
  obtain rfl : d = g.dims := Except.ok.inj (hd.symm.trans hpublished.dims)
  obtain ⟨heheight, hewidth, -⟩ := exists_columnDomains_of_extendColumns hpublished.extended
  obtain ⟨hheight, hwidth⟩ := makeDims_eq_ok hd
  rw [hpublished.header] at hheader
  rw [fromSlice_commitmentsBytes (S := S.toScheme) hpublished.commitments hheader] at hcells
  have hopens : e.Opens A S := by
    refine opens_of_buildProof (b := b) (heheight.trans (congrArg (· * _) hheight)) (hewidth.trans hwidth)
      hpublished.cols fun cell hrow hcol => ?_
    have hproof := hproofs cell
    rw [hpublished.matrix] at hproof
    exact hproof hrow hcol
  refine (forged_or_hasCell hpublished.commitments hopens hewidth hcells).imp_right fun hvalue => ?_
  have hread := reconstructExtrinsics_published hA R hcarries hpublished.extended hpublished.len_lt hvalue
    fun col hcol => inColumn_ne_nil_of_sampled (hsome col hcol)
  rwa [hgroups] at hread

/-- Another grid with the matrix that is published has its cells. -/
theorem PublishedAs.hasCell {C : Type} {A : Ark} {K : Codec AppData} {S : Committer C} {extrinsics : List AppExtrinsic}
    {layout : List (AppId × UInt32)} {header : List UInt8} {dims : BlockDimensions} {e e' g : EvaluationGrid}
    {published : List (List UInt8)}
    (h : PublishedAs A K S extrinsics layout header dims ⟨_, _, e'.evals⟩ g e published) {c : DataCell}
    (hcell : e'.HasCell A c) : e.HasCell A c := by
  obtain ⟨s, hs, hdata⟩ := hcell
  have hget := congrArg (fun m : Σ nrows ncols, DMatrix ArkScalar nrows ncols =>
    m.2.2.get c.position.row c.position.col) h.matrix
  exact ⟨s, hget.symm.trans hs, hdata⟩

/-! ### Two applications -/

/-- A chunk that is filled up is its scalar. -/
theorem toBlsScalar_bls12381 {a : List UInt8} (h : a.length ≤ dataChunkSize) :
    toBlsScalar bls12381 (resizeTo 0 chunkSize a) = .ok (scalarOf a) := by
  have hpad := padToBlsScalar_bls12381 h
  rw [padToBlsScalar, decide_eq_true h, Run.ensure_true, Except.ok_bind, Run.okOr_eq_ok] at hpad
  rw [toBlsScalar, dif_pos (length_resizeTo ..), hpad, Run.okOr_some]

theorem parExtendDataMatrix_twoApps :
    parExtendDataMatrix .checked bls12381 twoAppsDims twoAppsBlock = .ok ⟨_, _, twoAppsExtended.evals⟩ := by
  have hdims : makeDims twoAppsDims = .ok twoAppsGrid.dims := rfl
  have hextDims : twoAppsGrid.dims.extend rowExtension colExtension = some twoAppsExtended.dims := rfl
  have hlong : bls12381.newDomain twoAppsExtended.dims.height = some ⟨4, ArkScalar.rootOfUnity 2⟩ :=
    bls12381_newDomain_four
  have hshort : bls12381.newDomain twoAppsGrid.dims.height = some ⟨2, ArkScalar.rootOfUnity 1⟩ :=
    bls12381_newDomain_two
  have hlength : ∀ chunk ∈ ([4, 4, 5] :: longChunks ++ List.replicate 3 (List.replicate 31 7)).map
      (resizeTo (0 : UInt8) chunkSize), chunk.length = chunkSize :=
    List.forall_mem_map.mpr fun _ _ => length_resizeTo ..
  have hchunks : chunksExact twoAppsDims.chunkSize.toNat twoAppsBlock =
      ([4, 4, 5] :: longChunks ++ List.replicate 3 (List.replicate 31 7)).map (resizeTo 0 chunkSize) :=
    chunksExact_flatten (by decide) hlength
  have hwhole : (remainder twoAppsDims.chunkSize.toNat twoAppsBlock).isEmpty = true := by
    rw [List.isEmpty_iff, ← List.length_eq_zero_iff, length_remainder, twoAppsBlock, length_flatten_uniform hlength]
    rfl
  have hscalars : (([4, 4, 5] :: longChunks ++ List.replicate 3 (List.replicate 31 7)).map
      (resizeTo 0 chunkSize)).mapM (toBlsScalar bls12381) = .ok twoAppsScalars := by
    have hshortChunks : ∀ a ∈ [4, 4, 5] :: longChunks ++ List.replicate 3 (List.replicate 31 (7 : UInt8)),
        a.length ≤ dataChunkSize := by decide
    have hmap : twoAppsScalars =
        ([4, 4, 5] :: longChunks ++ List.replicate 3 (List.replicate 31 7)).map scalarOf := rfl
    rw [hmap, Except.mapM_ok_iff, List.forall₂_map_left_iff, List.forall₂_map_right_iff, List.forall₂_same]
    exact fun a ha => toBlsScalar_bls12381 (hshortChunks a ha)
  have hmatrix : (DMatrix.fromRowIterator twoAppsGrid.dims.height twoAppsGrid.dims.width twoAppsScalars :
      Run KateError _) = .ok twoAppsGrid.evals := rfl
  have hcolumns : ∀ column ∈ twoAppsExtended.evals.columns, column.length = twoAppsExtended.dims.height :=
    twoAppsExtended.evals.length_column
  have hext : (DMatrix.fromIterator twoAppsExtended.dims.height twoAppsGrid.dims.width
      twoAppsExtended.evals.columns.flatten : Run KateError _) = .ok twoAppsExtended.evals :=
    DMatrix.fromIterator_flatten twoAppsExtended.evals.length_columns hcolumns
  have hmap : (twoAppsGrid.evals.columns.map fun col =>
      bls12381.fft ⟨4, ArkScalar.rootOfUnity 2⟩ (bls12381.ifft ⟨2, ArkScalar.rootOfUnity 1⟩ col)) =
        twoAppsExtended.evals.columns := rfl
  have hassert : (Run.assert (Build.checked = .wrapping ∨ ∀ column ∈ twoAppsExtended.evals.columns,
      column.length = twoAppsExtended.dims.height) : Run KateError Unit) = .ok () :=
    Run.assert_eq_ok.mpr (decide_eq_true (.inr hcolumns))
  simp only [parExtendDataMatrix, hdims, hextDims, hlong, hshort, hchunks, hwhole, hscalars, hmatrix, hmap,
    Run.okOr_some, Run.ensure_true, Except.ok_bind]
  rw [hassert, Except.ok_bind, hext]
  rfl

/-- A node of the older interface has the block, its header, and a proof of each cell. -/
theorem parBuildCommitments_twoApps :
    parBuildCommitments .checked false bls12381 (CellScheme.atPoint 5).toCommitter scaleAppData
      (fun _ _ => List.Vector.replicate 31 7) chunkSize 2 4 twoApps (List.Vector.replicate 32 0) =
        .ok ([(⟨1⟩, 1), (⟨2⟩, 4)], twoAppsCommitments.flatten, twoAppsDims, ⟨_, _, twoAppsExtended.evals⟩) := by
  obtain ⟨header, hheader, -⟩ := @exists_buildCommitments _ _ _ (Scheme.atPoint 5) twoAppsDims _ _
    twoAppsExtended.evals rfl _ bls12381_newDomain_four fun y _ => ⟨_, _, rfl, rfl⟩
  obtain ⟨published, hpublished, rfl⟩ := commitmentsBytes_of_buildCommitments (e := twoAppsExtended) rfl rfl hheader
  obtain rfl : twoAppsCommitments = published := Except.ok.inj (commitmentsBytes_twoApps.symm.trans hpublished)
  simp only [parBuildCommitments, flattenAndPadBlock_twoApps, parExtendDataMatrix_twoApps, Except.ok_bind]
  rw [show buildCommitments bls12381 (CellScheme.atPoint 5).toCommitter twoAppsDims twoAppsExtended.evals = _ from
    hheader]
  rfl

theorem reconstructExtrinsics_parBuildCommitments_two :
    ∃ (commitments : List (List.Vector UInt8 commitmentSize)) (cells : List SingleCell),
      fromSlice twoAppsCommitments.flatten = .ok commitments ∧ cells.map SingleCell.position = halfPositions ∧
      (∀ c ∈ cells, Sampled bls12381 (CellScheme.atPoint 5) twoAppsGrid.dims (commitments.map fun c => c.val) c) ∧
      reconstructExtrinsics bls12381 Runtime.plain scaleAppData twoAppsGrid.lookup twoAppsGrid.dims
        (cells.map SingleCell.toDataCell) = .ok (groupsOf twoApps) := by
  have hproofs : ∀ cell : Cell, cell.row.toNat < twoAppsExtended.dims.height →
      cell.col.toNat < twoAppsExtended.dims.width → ∃ bytes,
        buildProof .checked bls12381 (CellScheme.atPoint 5) twoAppsDims twoAppsExtended.evals [cell] = .ok bytes := by
    intro cell hrow hcol
    obtain ⟨bytes, hbytes, -⟩ := @exists_buildProof _ _ .checked _ (CellScheme.atPoint 5) twoAppsDims _ _
      twoAppsExtended.evals twoAppsGrid.dims twoAppsExtended.dims rfl rfl rfl rfl _ bls12381_newDomain_four (by decide)
      [cell] fun c hc => by
        obtain rfl := List.mem_singleton.mp hc
        exact isSome_openCell_twoApps hrow hcol
    exact ⟨bytes, hbytes⟩
  obtain ⟨commitments, hheader, hmap⟩ := @exists_fromSlice _ _ _ (Scheme.atPoint 5) _ _ commitmentsBytes_twoApps
  obtain ⟨cells, hpositions, hsampled, hvalue⟩ := @exists_sampled_twoApps halfPositions (by decide)
  have hsome : ∀ col < twoAppsGrid.dims.width, ∃ c ∈ cells, c.position.col = col :=
    exists_cell_of_positions hpositions (show ∀ col < 4, ∃ p ∈ halfPositions, p.col = col by decide)
  rw [← hmap] at hsampled
  obtain ⟨g, e, published, hpublished, hrun⟩ := reconstructExtrinsics_parBuildCommitments bls12381_hasHalves
    Runtime.plain scaleAppData (CellScheme.atPoint 5) length_encode_twoApps parBuildCommitments_twoApps
    hproofs (show makeDims twoAppsDims = .ok twoAppsGrid.dims from rfl) hheader hsampled hsome
  have hhonest := @not_exists_forged _ _ bls12381 (CellScheme.atPoint 5) e published cells
    fun c hc => hpublished.hasCell (hvalue c hc)
  have hread := (hrun.resolve_left hhonest).1 (enoughOrNone_half ((map_position_toDataCell cells).trans hpositions))
  obtain hlookup : twoAppsGrid.lookup = g.lookup := Except.ok.inj hpublished.lookup
  rw [← hlookup] at hread
  exact ⟨commitments, cells, hheader, hpositions, hsampled, hread⟩

end AvailCore
