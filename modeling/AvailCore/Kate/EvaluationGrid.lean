import AvailCore.Foundation.DMatrix
import AvailCore.Kate.Flatten
import AvailCore.Recovery.Reconstruct

/-!
# The grid of a block

`EvaluationGrid` of `kate/src/gridgen/core.rs`: the extrinsics are grouped by
application in a sorted map, each group is encoded and cut into chunks of 31 bytes, each
of which is a scalar; the scalars, and random ones after them, fill a matrix row by row.
Its columns are extended to twice their length for erasure coding.

## The model

The shape of a grid's matrix is a `Dimensions`, as the comments in the source promise.
The iterator that fills the grid never ends, and the matrix takes what it needs: the
model makes as many random scalars as are missing.

## What is proved

`extendColumns_eq_ok` says what an extended grid is. From half of each of its columns
the extrinsics are reconstructed (`reconstructExtrinsics_extended`): what the node
encodes, a light client decodes.
-/

namespace AvailCore

open Chunks Grouping AvailCore.Fourier

/-- `EvaluationGrid` -/
structure EvaluationGrid where
  lookup : DataLookup
  /-- Its shape. -/
  dims : Dimensions
  evals : DMatrix ArkScalar dims.height dims.width

/-- `pad_to_bls_scalar` -/
def padToBlsScalar (A : Ark) (a : List UInt8) : Run KateError ArkScalar := do
  Run.ensure (a.length ≤ dataChunkSize) .invalidChunkLength
  Run.okOr .multiproofError (A.fromBytes ⟨resizeTo 0 chunkSize a, length_resizeTo ..⟩)

/-- The scalars of a group. -/
def scalarsOfGroup (A : Ark) (K : Codec AppData) (group : AppId × AppData) :
    Run KateError (AppId × List ArkScalar) := do
  let enc ← Run.unwrap (K.encode group.2)
  let scalars ← (chunks dataChunkSize enc).mapM (padToBlsScalar A)
  return (group.1, scalars)

namespace EvaluationGrid

/-- `EvaluationGrid::from_extrinsics` -/
def fromExtrinsics (A : Ark) (K : Codec AppData) (rng : Rng) (extrinsics : List AppExtrinsic)
    (minWidth maxWidth maxHeight : ℕ) (rngSeed : Seed) : Run KateError EvaluationGrid := do
  let grouped := (treeGroup (extrinsics.map AppExtrinsic.pair)).toList
  let scalarsByApp ← grouped.mapM (scalarsOfGroup A K)
  let lenByApp := scalarsByApp.map fun p => (p.1, p.2.length)
  let lookup ← (DataLookup.fromIdAndLenIter lenByApp).mapErr .invalidDataLookup
  let dims ← getBlockDims lookup.len.toNat minWidth maxWidth maxHeight
  let scalars := scalarsByApp.flatMap Prod.snd
  let filler ← (List.range (dims.size - scalars.length)).mapM fun i =>
    Run.expect (padToBlsScalar A (rng rngSeed i).val)
  let evals ← DMatrix.fromRowIterator dims.height dims.width (scalars ++ filler)
  return ⟨lookup, dims, evals⟩

/-- `EvaluationGrid::extend_columns` -/
def extendColumns (A : Ark) (g : EvaluationGrid) (rowFactor : NonZeroU16) : Run KateError EvaluationGrid := do
  let dims ← Run.okOr .cellLengthExceeded (g.dims.extend rowFactor ⟨1, by decide⟩)
  let domain ← Run.okOr .domainSizeInvalid (A.newDomain g.dims.height)
  let domainNew ← Run.okOr .domainSizeInvalid (A.newDomain dims.height)
  Run.ensure (domainNew.size = dims.height) .domainSizeInvalid
  let newData := g.evals.columns.flatMap fun col => A.fft domainNew (A.ifft domain col)
  let evals ← DMatrix.fromIterator dims.height dims.width newData
  return ⟨g.lookup, dims, evals⟩

/-- `EvaluationGrid::row` -/
def row (g : EvaluationGrid) (y : ℕ) : Option (List ArkScalar) :=
  if y < g.dims.height then some (g.evals.row y) else none

/-- The scalars of the grid, row by row. -/
def rowMajor (g : EvaluationGrid) : List ArkScalar := (List.range g.dims.height).flatMap g.evals.row

theorem rowMajor_eq (g : EvaluationGrid) :
    g.rowMajor = g.dims.iterData.map fun p => (g.evals.get p.1 p.2).getD 0 := by
  rw [rowMajor, Dimensions.iterData, List.map_flatMap]
  refine List.flatMap_congr fun y hy => ?_
  rw [g.evals.row_eq_map_range (List.mem_range.mp hy) 0, List.map_map]
  rfl

/-- **What an extended grid is**: every column extended, and the rest as it was. -/
theorem extendColumns_eq_ok {A : Ark} {g e : EvaluationGrid} {rowFactor : NonZeroU16}
    (h : g.extendColumns A rowFactor = .ok e) :
    e.lookup = g.lookup ∧ e.dims.height = g.dims.height * rowFactor.val ∧ e.dims.width = g.dims.width ∧
      ∃ domain domainNew, A.newDomain g.dims.height = some domain ∧ A.newDomain e.dims.height = some domainNew ∧
        domainNew.size = e.dims.height ∧
        e.evals.columns = g.evals.columns.map fun col => A.fft domainNew (A.ifft domain col) := by
  simp only [extendColumns, Except.bind_eq_ok, Run.okOr_eq_ok, Run.ensure_eq_ok, decide_eq_true_eq,
    Except.pure_eq_ok, Except.ok.injEq, Dimensions.extend_eq_some, Nat.mul_one] at h
  obtain ⟨dims, ⟨hrows, hcols⟩, domain, hdomain, domainNew, hdomainNew, -, hsize, evals, hevals, rfl⟩ := h
  have hlength : ∀ column ∈ g.evals.columns.map fun col => A.fft domainNew (A.ifft domain col),
      column.length = dims.height := by
    intro column hcolumn
    obtain ⟨col, -, rfl⟩ := List.mem_map.mp hcolumn
    rw [(A.isTransform hdomainNew).length_fft, hsize]
  have hcount : (g.evals.columns.map fun col => A.fft domainNew (A.ifft domain col)).length = dims.width := by
    rw [List.length_map, g.evals.length_columns]
    exact hcols.symm
  rw [List.flatMap_def, DMatrix.fromIterator_flatten hcount hlength, Except.ok.injEq] at hevals
  subst hevals
  exact ⟨rfl, hrows, hcols, domain, domainNew, hdomain, hdomainNew, hsize, rfl⟩

/-- What is extended: every column, from one domain to the other. -/
theorem extendColumns_eq_ok_of {A : Ark} {g e : EvaluationGrid} {rowFactor : NonZeroU16}
    (hlookup : e.lookup = g.lookup) (hdims : g.dims.extend rowFactor ⟨1, by decide⟩ = some e.dims)
    {domain domainNew : EvaluationDomain} (hdomain : A.newDomain g.dims.height = some domain)
    (hdomainNew : A.newDomain e.dims.height = some domainNew) (hsize : domainNew.size = e.dims.height)
    (hcolumns : e.evals.columns = g.evals.columns.map fun col => A.fft domainNew (A.ifft domain col)) :
    g.extendColumns A rowFactor = .ok e := by
  obtain ⟨_, dims, evals⟩ := e
  cases hlookup
  have hevals : (DMatrix.fromIterator dims.height dims.width
      (g.evals.columns.flatMap fun col => A.fft domainNew (A.ifft domain col)) : Run KateError _) = .ok evals := by
    rw [List.flatMap_def, ← hcolumns]
    exact DMatrix.fromIterator_flatten evals.length_columns evals.length_column
  simp only [extendColumns, hdims, hdomain, hdomainNew, hsize, decide_true, Run.okOr_some, Run.ensure_true,
    Except.ok_bind, hevals]
  rfl

/-! ### Extended grids -/

section Extended

variable {A : Ark} {g e : EvaluationGrid} {rowFactor : NonZeroU16} (h : g.extendColumns A rowFactor = .ok e)
include h

/-- Only the larger domain is checked, but what divides a power of two is one. -/
theorem exists_two_pow_of_extendColumns : ∃ k m, g.dims.height = 2 ^ k ∧ g.dims.height * rowFactor.val = 2 ^ m := by
  obtain ⟨-, hheight, -, domain, domainNew, -, hdomainNew, hsize, -⟩ := extendColumns_eq_ok h
  rw [A.size_newDomain hdomainNew, hheight] at hsize
  have hpow : g.dims.height * rowFactor.val = 2 ^ Nat.clog 2 (g.dims.height * rowFactor.val) := hsize.symm
  obtain ⟨k, -, hk⟩ := (Nat.dvd_prime_pow Nat.prime_two).mp (hpow ▸ Nat.dvd_mul_right g.dims.height rowFactor.val)
  exact ⟨k, _, hk, hpow⟩

/-- Each column is extended from the domain of its rows to one `rowFactor` times as large. -/
theorem exists_domains_of_extendColumns : ∃ domain domainNew, A.newDomain g.dims.height = some domain ∧
    A.newDomain e.dims.height = some domainNew ∧ domain.size = g.dims.height ∧ domainNew.size = e.dims.height ∧
    e.evals.columns = g.evals.columns.map fun col => A.fft domainNew (A.ifft domain col) := by
  obtain ⟨-, -, -, domain, domainNew, hdomain, hdomainNew, hsize, hcolumns⟩ := extendColumns_eq_ok h
  obtain ⟨k, -, hk, -⟩ := exists_two_pow_of_extendColumns h
  refine ⟨domain, domainNew, hdomain, hdomainNew, ?_, hsize, hcolumns⟩
  rw [A.size_newDomain hdomain, hk, nextPowerOfTwo_two_pow]

/-- The cells of a grid are in every `rowFactor`-th row of its extension. -/
theorem get_extendColumns {row col : ℕ} {s : ArkScalar} (hs : g.evals.get row col = some s) :
    e.evals.get (row * rowFactor.val) col = some s := by
  obtain ⟨-, hheight, -⟩ := extendColumns_eq_ok h
  obtain ⟨domain, domainNew, hdomain, hdomainNew, hshort, hlong, hcolumns⟩ := exists_domains_of_extendColumns h
  have hcol := (DMatrix.lt_of_get_eq_some hs).2
  have hsize : domainNew.size = domain.size * rowFactor.val := by rw [hlong, hheight, hshort]
  rw [g.evals.get_eq_column] at hs
  rw [e.evals.get_eq_column, DMatrix.column_of_columns_eq hcolumns hcol]
  exact A.getElem?_fft_ifft hdomain hdomainNew hsize ((g.evals.length_column_of_lt hcol).trans hshort.symm) hs

/-- So are its rows, and there are no others. -/
theorem row_extendColumns (i : ℕ) : e.row (rowFactor.val * i) = g.row i := by
  obtain ⟨-, hheight, hwidth, -⟩ := extendColumns_eq_ok h
  have hlt : rowFactor.val * i < e.dims.height ↔ i < g.dims.height := by
    rw [hheight, Nat.mul_comm, Nat.mul_lt_mul_right rowFactor.property.1]
  rw [row, row]
  by_cases hi : i < g.dims.height
  · have hrange : List.range e.dims.width = List.range g.dims.width := congrArg List.range hwidth
    rw [if_pos (hlt.mpr hi), if_pos hi, e.evals.row_eq_map_range (hlt.mpr hi) 0, g.evals.row_eq_map_range hi 0, hrange]
    congr 1
    refine List.map_congr_left fun col hcol => ?_
    obtain ⟨s, hs⟩ := g.evals.exists_get hi (List.mem_range.mp hcol)
    rw [hs, Nat.mul_comm, get_extendColumns h hs]
  · rw [if_neg (mt hlt.mp hi), if_neg hi]

/-- A column of the extension has the values of a polynomial with as many coefficients as there are rows. -/
theorem column_extendColumns {col : ℕ} (hcol : col < e.dims.width) :
    ∃ (domainNew : EvaluationDomain) (p : Polynomial ArkScalar), A.newDomain e.dims.height = some domainNew ∧
      domainNew.size = e.dims.height ∧ p.degree < g.dims.height ∧
      e.evals.column col = Fourier.evals domainNew.groupGen domainNew.size p := by
  obtain ⟨-, hheight, hwidth, -⟩ := extendColumns_eq_ok h
  obtain ⟨domain, domainNew, hdomain, hdomainNew, hshort, hlong, hcolumns⟩ := exists_domains_of_extendColumns h
  have hle : domain.size ≤ domainNew.size := by
    rw [hshort, hlong, hheight]
    exact Nat.le_mul_of_pos_right _ rowFactor.property.1
  refine ⟨domainNew, toPoly (A.ifft domain (g.evals.column col)), hdomainNew, hlong, ?_, ?_⟩
  · exact ((A.isTransform hdomain).degree_ifft_lt _).trans_eq (congrArg Nat.cast hshort)
  · rw [DMatrix.column_of_columns_eq hcolumns (hwidth ▸ hcol), A.fft_ifft_eq_evals hdomain hdomainNew hle]

end Extended

/-- `e` is a grid, extended by a factor: its rows are among those of `e`, and a column of `e` has the values of a
polynomial with as many coefficients as there are rows. -/
structure ExtendedBy (A : Ark) (rowFactor : ℕ) (g e : EvaluationGrid) : Prop where
  rows_pow : ∃ k, g.dims.height = 2 ^ k
  extended_pow : ∃ m, rowFactor * g.dims.height = 2 ^ m
  extended_lt : rowFactor * g.dims.height < 2 ^ 16
  height : e.dims.height = rowFactor * g.dims.height
  width : e.dims.width = g.dims.width
  lookup : e.lookup = g.lookup
  row : ∀ i, e.row (rowFactor * i) = g.row i
  column : ∀ col < e.dims.width, ∃ (domainNew : EvaluationDomain) (p : Polynomial ArkScalar),
    A.newDomain (rowFactor * g.dims.height) = some domainNew ∧ domainNew.size = rowFactor * g.dims.height ∧
      p.degree < g.dims.height ∧ e.evals.column col = Fourier.evals domainNew.groupGen domainNew.size p

/-- **What is extended is systematic**, for every factor: where the rows are not as many as a domain has points, the
call fails. -/
theorem extendColumns_systematic {A : Ark} {g e : EvaluationGrid} {rowFactor : NonZeroU16}
    (h : g.extendColumns A rowFactor = .ok e) : ExtendedBy A rowFactor.val g e := by
  obtain ⟨hlookup, hheight, hwidth, -⟩ := extendColumns_eq_ok h
  rw [Nat.mul_comm] at hheight
  obtain ⟨k, m, hk, hm⟩ := exists_two_pow_of_extendColumns h
  rw [Nat.mul_comm] at hm
  refine ⟨⟨k, hk⟩, ⟨m, hm⟩, hheight ▸ e.dims.rows.property.2, hheight, hwidth, hlookup, row_extendColumns h, ?_⟩
  intro col hcol
  rw [← hheight]
  exact column_extendColumns h hcol

end EvaluationGrid

/-! ### The bytes of a grid -/

/-- The bytes of a scalar. -/
def HasBytes (A : Ark) (s : ArkScalar) (bytes : List UInt8) : Prop := ∃ b, A.toBytes s = some b ∧ b.val = bytes

/-- The bytes of a row of scalars, when all of them have some. -/
def rowBytes (A : Ark) (row : List ArkScalar) : Option (List UInt8) := do
  let chunks ← row.mapM A.toBytes
  return (chunks.map fun chunk => chunk.val).flatten

/-- The bytes of a row are those of its scalars, one after another. -/
theorem rowBytes_of_hasBytes {A : Ark} {row : List ArkScalar} {cs : List (List UInt8)}
    (h : List.Forall₂ (HasBytes A) row cs) : rowBytes A row = some cs.flatten := by
  induction h with
  | nil => rfl
  | @cons s c row cs hhead _ ih =>
    obtain ⟨chunk, hchunk, rfl⟩ := hhead
    obtain ⟨chunks, hchunks, hjoin⟩ := Option.bind_eq_some_iff.mp ih
    rw [rowBytes, List.mapM_cons, hchunk, hchunks, List.flatten_cons, ← Option.some.inj hjoin]
    rfl

theorem hasBytes_of_padToBlsScalar {A : Ark} {a : List UInt8} {s : ArkScalar} (h : padToBlsScalar A a = .ok s) :
    HasBytes A s (resizeTo 0 chunkSize a) := by
  simp only [padToBlsScalar, Except.bind_eq_ok, Run.okOr_eq_ok] at h
  obtain ⟨-, -, hs⟩ := h
  exact ⟨_, A.toBytes_fromBytes hs, rfl⟩

/-- At most 31 bytes, filled up, are those of a scalar. -/
theorem exists_padToBlsScalar (A : Ark) {a : List UInt8} (h : a.length ≤ dataChunkSize) :
    ∃ s, padToBlsScalar A a = .ok s := by
  have hlast : (resizeTo 0 chunkSize a).getLast? = some 0 := by
    have hpad : chunkSize - a.length = dataChunkSize - a.length + 1 := Nat.succ_sub h
    rw [resizeTo_of_le (h.trans dataChunkSize_le), hpad, List.replicate_succ', ← List.append_assoc]
    exact List.getLast?_concat ..
  obtain ⟨s, hs⟩ := Option.isSome_iff_exists.mp (A.fromBytes_isSome (b := ⟨_, length_resizeTo 0 chunkSize a⟩) hlast)
  refine ⟨s, ?_⟩
  rw [padToBlsScalar, decide_eq_true h, Run.ensure_true, Except.ok_bind, hs, Run.okOr_some]

/-- The chunks of a group: those of its encoding, each filled up. -/
def groupChunks (K : Codec AppData) (group : AppId × AppData) : List (List UInt8) :=
  (chunks dataChunkSize ((K.encode group.2).getD [])).map (resizeTo 0 chunkSize)

theorem length_of_mem_groupChunks {K : Codec AppData} {group : AppId × AppData} {chunk : List UInt8}
    (h : chunk ∈ groupChunks K group) : chunk.length = chunkSize := by
  obtain ⟨c, -, rfl⟩ := List.mem_map.mp h
  exact length_resizeTo ..

theorem holds_groupChunks {K : Codec AppData} {group : AppId × AppData} {enc : List UInt8}
    (henc : K.encode group.2 = some enc) : Holds K group (groupChunks K group) := by
  refine ⟨fun chunk hchunk => length_of_mem_groupChunks hchunk, enc, ?_⟩
  -- without its last byte, a chunk is one of 31 bytes, filled up
  have htake : ∀ c ∈ chunks dataChunkSize enc,
      (resizeTo 0 chunkSize c).take dataChunkSize = resizeTo 0 dataChunkSize c :=
    fun c hc => take_resizeTo (length_of_mem_chunks hc).2 dataChunkSize_le
  obtain ⟨m, -, hjoin⟩ := flatten_resizeTo_chunks (0 : UInt8) dataChunkSize_pos enc
  refine ⟨List.replicate m 0, henc, ?_⟩
  rw [groupChunks, henc, Option.getD_some, List.map_map, ← hjoin]
  exact congrArg List.flatten (List.map_congr_left htake)

/-- The scalars of a group have the bytes of its chunks. -/
theorem scalarsOfGroup_eq_ok {A : Ark} {K : Codec AppData} {group : AppId × AppData} {p : AppId × List ArkScalar}
    (h : scalarsOfGroup A K group = .ok p) :
    p.1 = group.1 ∧ (∃ enc, K.encode group.2 = some enc) ∧ List.Forall₂ (HasBytes A) p.2 (groupChunks K group) := by
  simp only [scalarsOfGroup, Except.bind_eq_ok, Run.unwrap_eq_ok, Except.pure_eq_ok, Except.ok.injEq] at h
  obtain ⟨enc, henc, scalars, hscalars, rfl⟩ := h
  refine ⟨rfl, ⟨enc, henc⟩, ?_⟩
  rw [groupChunks, henc, Option.getD_some, List.forall₂_map_right_iff]
  exact ((Except.mapM_ok_iff.mp hscalars).imp fun _ _ hs => hasBytes_of_padToBlsScalar hs).flip

/-- A group that is encoded has scalars. -/
theorem exists_scalarsOfGroup (A : Ark) {K : Codec AppData} {group : AppId × AppData} {enc : List UInt8}
    (henc : K.encode group.2 = some enc) : ∃ p, scalarsOfGroup A K group = .ok p := by
  have hchunks : ∀ c ∈ chunks dataChunkSize enc, ∃ s, padToBlsScalar A c = .ok s :=
    fun c hc => exists_padToBlsScalar A (length_of_mem_chunks hc).2
  obtain ⟨scalars, hscalars⟩ := Except.exists_mapM hchunks
  refine ⟨(group.1, scalars), ?_⟩
  rw [scalarsOfGroup, henc, Run.unwrap_some, Except.ok_bind, hscalars]
  rfl

/-- Groups with their chunks. -/
def chunkedGroups (K : Codec AppData) (groups : List (AppId × AppData)) :
    List ((AppId × AppData) × List (List UInt8)) :=
  groups.map fun group => (group, groupChunks K group)

@[simp] theorem map_fst_chunkedGroups (K : Codec AppData) (groups : List (AppId × AppData)) :
    (chunkedGroups K groups).map Prod.fst = groups := by
  rw [chunkedGroups, List.map_map]
  exact List.map_id groups

/-- Groups, with chunks that hold them, whose bytes the scalars have. -/
structure ScalarsOf (A : Ark) (K : Codec AppData) (groups : List (AppId × AppData))
    (scalarsByApp : List (AppId × List ArkScalar)) (held : List ((AppId × AppData) × List (List UInt8))) : Prop where
  fst : held.map Prod.fst = groups
  holds : ∀ g ∈ held, Holds K g.1 g.2
  counts : chunkCounts held = scalarsByApp.map fun p => (p.1, p.2.length)
  bytes : List.Forall₂ (HasBytes A) (scalarsByApp.flatMap Prod.snd) (held.flatMap Prod.snd)

theorem scalarsOf_chunkedGroups {A : Ark} {K : Codec AppData} {groups : List (AppId × AppData)}
    {scalarsByApp : List (AppId × List ArkScalar)} (h : groups.mapM (scalarsOfGroup A K) = .ok scalarsByApp) :
    ScalarsOf A K groups scalarsByApp (chunkedGroups K groups) := by
  have hall := Except.mapM_ok_iff.mp h
  clear h
  induction hall with
  | nil => exact ⟨rfl, by simp [chunkedGroups], rfl, List.Forall₂.nil⟩
  | @cons group p _ _ hhead _ ih =>
    obtain ⟨hid, ⟨enc, henc⟩, hbytes⟩ := scalarsOfGroup_eq_ok hhead
    refine ⟨map_fst_chunkedGroups .., ?_, ?_, ?_⟩
    · intro g hg
      rcases List.mem_cons.mp hg with rfl | hg
      · exact holds_groupChunks henc
      · exact ih.holds g hg
    · rw [chunkCounts, chunkedGroups, List.map_cons, List.map_cons, List.map_cons, hid, hbytes.length_eq]
      exact congrArg (_ :: ·) ih.counts
    · exact List.rel_append hbytes ih.bytes

/-- The cells are the scalars of these chunks, row by row: those of the groups, whose layout is in the
lookup, and then a filler. -/
structure EvaluationGrid.Carries (A : Ark) (K : Codec AppData) (g : EvaluationGrid)
    (held : List ((AppId × AppData) × List (List UInt8))) (filler : List (List UInt8)) : Prop where
  holds : ∀ x ∈ held, Holds K x.1 x.2
  lookup : DataLookup.fromIdAndLenIter (chunkCounts held) = .ok g.lookup
  length_chunk : ∀ chunk ∈ filler, chunk.length = chunkSize
  size : (held.flatMap Prod.snd ++ filler).length = g.dims.size
  cell : ∀ row < g.dims.height, ∀ col < g.dims.width, ∃ s, g.evals.get row col = some s ∧
    HasBytes A s ((held.flatMap Prod.snd ++ filler).getD (row * g.dims.width + col) [])
  height : ∃ k, g.dims.height = 2 ^ k

/-- The chunks of a filler. -/
def fillerChunks (random : ℕ → List.Vector UInt8 dataChunkSize) (n : ℕ) : List (List UInt8) :=
  (List.range n).map fun i => resizeTo 0 chunkSize (random i).val

/-- What a call that makes a grid does, step by step. -/
theorem EvaluationGrid.fromExtrinsics_eq_ok_iff {A : Ark} {K : Codec AppData} {rng : Rng}
    {extrinsics : List AppExtrinsic} {minWidth maxWidth maxHeight : ℕ} {rngSeed : Seed} {g : EvaluationGrid} :
    fromExtrinsics A K rng extrinsics minWidth maxWidth maxHeight rngSeed = .ok g ↔
      ∃ scalarsByApp filler, (groupsOf extrinsics).mapM (scalarsOfGroup A K) = .ok scalarsByApp ∧
        DataLookup.fromIdAndLenIter (scalarsByApp.map fun p => (p.1, p.2.length)) = .ok g.lookup ∧
        getBlockDims g.lookup.len.toNat minWidth maxWidth maxHeight = .ok g.dims ∧
        ((List.range (g.dims.size - (scalarsByApp.flatMap Prod.snd).length)).mapM fun i =>
          (Run.expect (padToBlsScalar A (rng rngSeed i).val) : Run KateError _)) = .ok filler ∧
        (DMatrix.fromRowIterator g.dims.height g.dims.width (scalarsByApp.flatMap Prod.snd ++ filler) :
          Run KateError _) = .ok g.evals := by
  have hgroups : (treeGroup (extrinsics.map AppExtrinsic.pair)).toList = groupsOf extrinsics :=
    (treeGroup_isGrouping _).unique (grouped_isGrouping _)
  simp only [fromExtrinsics, hgroups, Except.bind_eq_ok, Run.mapErr_eq_ok, Except.pure_eq_ok, Except.ok.injEq]
  constructor
  · intro h
    obtain ⟨scalarsByApp, hscalars, lookup, hlookup, dims, hdims, filler, hfiller, evals, hevals, rfl⟩ := h
    exact ⟨scalarsByApp, filler, hscalars, hlookup, hdims, hfiller, hevals⟩
  · intro h
    obtain ⟨scalarsByApp, filler, hscalars, hlookup, hdims, hfiller, hevals⟩ := h
    exact ⟨scalarsByApp, hscalars, g.lookup, hlookup, g.dims, hdims, filler, hfiller, g.evals, hevals, rfl⟩

/-- A grid made from extrinsics carries their groups. -/
theorem EvaluationGrid.carries_of_fromExtrinsics {A : Ark} {K : Codec AppData} {rng : Rng}
    {extrinsics : List AppExtrinsic} {minWidth maxWidth maxHeight : ℕ} {rngSeed : Seed} {g : EvaluationGrid}
    (h : fromExtrinsics A K rng extrinsics minWidth maxWidth maxHeight rngSeed = .ok g) :
    getBlockDims g.lookup.len.toNat minWidth maxWidth maxHeight = .ok g.dims ∧
      g.Carries A K (chunkedGroups K (groupsOf extrinsics)) (fillerChunks (rng rngSeed)
        (g.dims.size - ((chunkedGroups K (groupsOf extrinsics)).flatMap Prod.snd).length)) := by
  obtain ⟨scalarsByApp, fillerScalars, hscalars, hlookup, hdims, hfiller, hevals⟩ :=
    EvaluationGrid.fromExtrinsics_eq_ok_iff.mp h
  have hheld := scalarsOf_chunkedGroups hscalars
  rw [← hheld.counts] at hlookup
  rw [hheld.bytes.length_eq] at hfiller
  set held := chunkedGroups K (groupsOf extrinsics)
  set n := g.dims.size - (held.flatMap Prod.snd).length with hn
  have hbytes : List.Forall₂ (HasBytes A) fillerScalars (fillerChunks (rng rngSeed) n) := by
    rw [fillerChunks, List.forall₂_map_right_iff]
    exact ((Except.mapM_ok_iff.mp hfiller).imp fun _ _ hs =>
      hasBytes_of_padToBlsScalar (Run.expect_eq_ok.mp hs)).flip
  have hall : List.Forall₂ (HasBytes A) (scalarsByApp.flatMap Prod.snd ++ fillerScalars)
      (held.flatMap Prod.snd ++ fillerChunks (rng rngSeed) n) := List.rel_append hheld.bytes hbytes
  -- there is room for the scalars of the groups
  have hsize : (held.flatMap Prod.snd ++ fillerChunks (rng rngSeed) n).length = g.dims.size := by
    obtain ⟨L, hitems, hL⟩ := fromIdAndLenIter_eq_ok_iff.mp hlookup
    have hlen : g.lookup.len.toNat = (held.flatMap Prod.snd).length := by
      rw [hL, L.lookup_len, toNat_ofNat_of_lt L.total_lt, hitems, total_chunkCounts]
    have hroom := (getBlockDims_fits hdims).room
    rw [hlen] at hroom
    rw [List.length_append, fillerChunks, List.length_map, List.length_range]
    exact Nat.add_sub_cancel' hroom
  refine ⟨hdims, hheld.holds, hlookup, ?_, hsize, ?_, (getBlockDims_fits hdims).height⟩
  · intro chunk hchunk
    obtain ⟨i, -, rfl⟩ := List.mem_map.mp hchunk
    exact length_resizeTo ..
  · intro row hrow col hcol
    have hlt : row * g.dims.width + col < (held.flatMap Prod.snd ++ fillerChunks (rng rngSeed) n).length := by
      rw [hsize]
      exact mul_add_lt hrow hcol
    have hlt' : row * g.dims.width + col < (scalarsByApp.flatMap Prod.snd ++ fillerScalars).length := by
      rwa [hall.length_eq]
    refine ⟨_, (DMatrix.get_fromRowIterator hevals hrow hcol).trans (List.getElem?_eq_getElem hlt'), ?_⟩
    rw [List.getD_eq_getElem _ _ hlt]
    exact hall.get hlt' hlt

/-- A grid that is filled from enough cells is those cells, row by row. -/
theorem EvaluationGrid.rowMajor_of_fromRowIterator {g : EvaluationGrid} {cells : List ArkScalar}
    (h : (DMatrix.fromRowIterator g.dims.height g.dims.width cells : Run KateError _) = .ok g.evals)
    (hsize : cells.length = g.dims.size) : g.rowMajor = cells := by
  rw [g.rowMajor_eq, ← g.dims.map_iterData hsize 0]
  refine List.map_congr_left fun p hp => ?_
  obtain ⟨hrow, hcol⟩ := g.dims.mem_iterData.mp hp
  rw [DMatrix.get_fromRowIterator h hrow hcol, List.getD_eq_getElem?_getD]

/-- The applications of the lookup are those of the extrinsics. -/
theorem EvaluationGrid.mem_ids_iff {A : Ark} {K : Codec AppData} {rng : Rng} {extrinsics : List AppExtrinsic}
    {minWidth maxWidth maxHeight : ℕ} {rngSeed : Seed} {g : EvaluationGrid}
    (h : fromExtrinsics A K rng extrinsics minWidth maxWidth maxHeight rngSeed = .ok g) {id : AppId} :
    id ∈ g.lookup.index.map Prod.fst ↔ id ∈ extrinsics.map AppExtrinsic.appId := by
  obtain ⟨-, hcarries⟩ := EvaluationGrid.carries_of_fromExtrinsics h
  obtain ⟨L, hitems, hlookup⟩ := fromIdAndLenIter_eq_ok_iff.mp hcarries.lookup
  have hids : g.lookup.index.map Prod.fst = (groupsOf extrinsics).map Prod.fst := by
    rw [hlookup, Layout.lookup, map_fst_ranges, hitems, chunkCounts, chunkedGroups, List.map_map, List.map_map]
    rfl
  rw [hids, ← mem_ids_groupsOf]

/-- **No scalar is dropped**: the cells of a grid, row by row, are the scalars of the groups and then a filler. -/
theorem EvaluationGrid.rowMajor_fromExtrinsics {A : Ark} {K : Codec AppData} {rng : Rng}
    {extrinsics : List AppExtrinsic} {minWidth maxWidth maxHeight : ℕ} {rngSeed : Seed} {g : EvaluationGrid}
    (h : fromExtrinsics A K rng extrinsics minWidth maxWidth maxHeight rngSeed = .ok g) :
    ∃ scalarsByApp filler, (groupsOf extrinsics).mapM (scalarsOfGroup A K) = .ok scalarsByApp ∧
      g.rowMajor = scalarsByApp.flatMap Prod.snd ++ filler := by
  obtain ⟨scalarsByApp, filler, hscalars, hlookup, hdims, hfiller, hevals⟩ :=
    EvaluationGrid.fromExtrinsics_eq_ok_iff.mp h
  refine ⟨scalarsByApp, filler, hscalars, EvaluationGrid.rowMajor_of_fromRowIterator hevals ?_⟩
  obtain ⟨L, hitems, hL⟩ := fromIdAndLenIter_eq_ok_iff.mp hlookup
  have hroom := (getBlockDims_fits hdims).room
  rw [hL, L.lookup_len, toNat_ofNat_of_lt L.total_lt, hitems] at hroom
  have hcount : (scalarsByApp.flatMap Prod.snd).length ≤ g.dims.size := by
    refine le_trans (le_of_eq ?_) hroom
    rw [total, List.map_map, List.length_flatMap]
    rfl
  rw [List.length_append, ← (Except.mapM_ok_iff.mp hfiller).length_eq, List.length_range]
  exact Nat.add_sub_cancel' hcount

/-- Extrinsics whose groups are encoded and have a lookup, and dimensions, make a grid. -/
theorem EvaluationGrid.exists_fromExtrinsics (A : Ark) {K : Codec AppData} (rng : Rng) {extrinsics : List AppExtrinsic}
    {minWidth maxWidth maxHeight : ℕ} (rngSeed : Seed)
    (hencode : ∀ group ∈ groupsOf extrinsics, ∃ enc, K.encode group.2 = some enc) {lookup : DataLookup}
    (hlookup : DataLookup.fromIdAndLenIter (chunkCounts (chunkedGroups K (groupsOf extrinsics))) = .ok lookup)
    {dims : Dimensions} (hdims : getBlockDims lookup.len.toNat minWidth maxWidth maxHeight = .ok dims) :
    ∃ g, fromExtrinsics A K rng extrinsics minWidth maxWidth maxHeight rngSeed = .ok g := by
  have hscalarsOf : ∀ group ∈ groupsOf extrinsics, ∃ p, scalarsOfGroup A K group = .ok p := by
    intro group hgroup
    obtain ⟨enc, henc⟩ := hencode group hgroup
    exact exists_scalarsOfGroup A henc
  obtain ⟨scalarsByApp, hscalars⟩ := Except.exists_mapM hscalarsOf
  have hrandom : ∀ i ∈ List.range (dims.size - (scalarsByApp.flatMap Prod.snd).length),
      ∃ s, (Run.expect (padToBlsScalar A (rng rngSeed i).val) : Run KateError _) = .ok s := by
    intro i _
    obtain ⟨s, hs⟩ := exists_padToBlsScalar A (rng rngSeed i).property.le
    exact ⟨s, Run.expect_eq_ok.mpr hs⟩
  obtain ⟨filler, hfiller⟩ := Except.exists_mapM hrandom
  have hsize : dims.height * dims.width ≤ (scalarsByApp.flatMap Prod.snd ++ filler).length := by
    rw [List.length_append, ← (Except.mapM_ok_iff.mp hfiller).length_eq, List.length_range]
    exact le_add_tsub
  obtain ⟨evals, hevals⟩ : ∃ evals, (DMatrix.fromRowIterator dims.height dims.width
      (scalarsByApp.flatMap Prod.snd ++ filler) : Run KateError _) = .ok evals := ⟨_, dif_pos hsize⟩
  rw [(scalarsOf_chunkedGroups hscalars).counts] at hlookup
  exact ⟨⟨lookup, dims, evals⟩, EvaluationGrid.fromExtrinsics_eq_ok_iff.mpr
    ⟨scalarsByApp, filler, hscalars, hlookup, hdims, hfiller, hevals⟩⟩

/-- **The shape of a grid holds its scalars**: what dimensions are when there are some, when there are none, and
that a grid with them has every scalar of its groups. -/
theorem getBlockDims_keeps_scalars (n minWidth maxWidth maxHeight : ℕ) :
    (∀ d, getBlockDims n minWidth maxWidth maxHeight = .ok d → FitsBlock n minWidth maxWidth maxHeight d) ∧
    (∀ k, maxWidth = 2 ^ k → maxWidth < 2 ^ 16 → minWidth < 2 ^ 16 → maxWidth ≤ n →
      ((∃ e, getBlockDims n minWidth maxWidth maxHeight = Run.fail e) ↔
        maxHeight < nextPowerOfTwo ((n + maxWidth - 1) / maxWidth) ∨
          2 ^ 16 ≤ nextPowerOfTwo ((n + maxWidth - 1) / maxWidth))) ∧
    ∀ (A : Ark) (K : Codec AppData) (rng : Rng) (extrinsics : List AppExtrinsic) (rngSeed : Seed) (g : EvaluationGrid),
      EvaluationGrid.fromExtrinsics A K rng extrinsics minWidth maxWidth maxHeight rngSeed = .ok g →
        ∃ scalarsByApp filler, (groupsOf extrinsics).mapM (scalarsOfGroup A K) = .ok scalarsByApp ∧
          g.rowMajor = scalarsByApp.flatMap Prod.snd ++ filler := by
  refine ⟨?_, ?_, ?_⟩
  · intro d hd
    exact getBlockDims_fits hd
  · rintro k rfl hwidth - hn
    exact getBlockDims_fails_iff (Nat.two_pow_pos k) hwidth hn
  · intro A K rng extrinsics rngSeed g hg
    exact EvaluationGrid.rowMajor_fromExtrinsics hg

/-- The grid has this cell. -/
def EvaluationGrid.HasCell (A : Ark) (g : EvaluationGrid) (cell : DataCell) : Prop :=
  ∃ s, g.evals.get cell.position.row cell.position.col = some s ∧ A.toBytes s = some cell.data

/-- The bytes in a position, or zeros where there are none. -/
def EvaluationGrid.cellAt (A : Ark) (g : EvaluationGrid) (p : Position) : DataCell :=
  ⟨p, ((g.evals.get p.row p.col).bind A.toBytes).getD (List.Vector.replicate chunkSize 0)⟩

/-- In the positions of a grid, it has them. -/
theorem EvaluationGrid.hasCell_cellAt (A : Ark) (g : EvaluationGrid) {positions : List Position}
    (hin : ∀ p ∈ positions, p.row < g.dims.height ∧ p.col < g.dims.width) :
    ∀ c ∈ positions.map (g.cellAt A), g.HasCell A c := by
  intro c hc
  obtain ⟨p, hp, rfl⟩ := List.mem_map.mp hc
  obtain ⟨s, hs⟩ := g.evals.exists_get (hin p hp).1 (hin p hp).2
  obtain ⟨b, hb⟩ := Option.isSome_iff_exists.mp (A.toBytes_isSome s)
  refine ⟨s, hs, ?_⟩
  rw [cellAt, hs, Option.bind_some, hb, Option.getD_some]

theorem EvaluationGrid.map_position_cellAt (A : Ark) (g : EvaluationGrid) (positions : List Position) :
    (positions.map (g.cellAt A)).map DataCell.position = positions := by
  rw [List.map_map]
  exact List.map_id positions

/-- Cells read from the extended grid are cells of its extended columns. -/
theorem halfOf_of_columns_eq {A : Ark} {short d : EvaluationDomain} {g e : EvaluationGrid}
    (hheight : e.dims.height = g.dims.height * extensionFactor) (hwidth : e.dims.width = g.dims.width)
    (hcolumns : e.evals.columns = g.evals.columns.map fun col => A.fft d (A.ifft short col)) {cells : List DataCell}
    (hvalue : ∀ c ∈ cells, ∃ s, e.evals.get c.position.row c.position.col = some s ∧ A.toBytes s = some c.data)
    (hnodup : (cells.map DataCell.position).Nodup)
    (hhalf : ∀ col < e.dims.width, g.dims.height ≤ (inColumn cells col).length) :
    HalfOf A g.dims (fun col => A.fft d (A.ifft short (g.evals.column col))) cells := by
  refine ⟨?_, hnodup, hwidth ▸ hhalf, ?_⟩
  · intro c hc
    obtain ⟨s, hs, -⟩ := hvalue c hc
    obtain ⟨hrow, hcol⟩ := DMatrix.lt_of_get_eq_some hs
    rw [hheight] at hrow
    exact g.dims.extendedContains_iff.mpr ⟨hrow, hwidth ▸ hcol⟩
  · intro c hc
    obtain ⟨s, hs, hbytes⟩ := hvalue c hc
    have hcol := (DMatrix.lt_of_get_eq_some hs).2
    rw [e.evals.get_eq_column, DMatrix.column_of_columns_eq hcolumns (hwidth ▸ hcol)] at hs
    exact ⟨s, hs, hbytes⟩

namespace EvaluationGrid.Carries

variable {A : Ark} {K : Codec AppData} {g : EvaluationGrid} {held : List ((AppId × AppData) × List (List UInt8))}
  {filler : List (List UInt8)} (h : g.Carries A K held filler)
include h

/-- The range of an application is one of cells of the data. -/
theorem of_mem_index {x : AppId × DataLookupRange} (hx : x ∈ g.lookup.index) :
    x.2.start < x.2.end_ ∧ x.2.end_.toNat ≤ g.dims.size := by
  obtain ⟨L, hitems, hlookup⟩ := fromIdAndLenIter_eq_ok_iff.mp h.lookup
  rw [hlookup] at hx
  refine ⟨L.lookup_nonempty hx, (L.lookup_end_le hx).trans ?_⟩
  rw [L.lookup_len, toNat_ofNat_of_lt L.total_lt, hitems, total_chunkCounts, ← h.size, List.length_append]
  exact Nat.le_add_right _ _

theorem nodup_ids : (g.lookup.index.map Prod.fst).Nodup := by
  obtain ⟨L, -, hlookup⟩ := fromIdAndLenIter_eq_ok_iff.mp h.lookup
  rw [hlookup]
  exact L.nodup_lookup

/-- The extended grid has twice the rows, and columns extended from one domain to another. -/
theorem exists_columnDomains {e : EvaluationGrid} (he : g.extendColumns A ⟨extensionFactor, by decide⟩ = .ok e) :
    e.dims.height = g.dims.height * extensionFactor ∧ e.dims.width = g.dims.width ∧
      ∃ k short d, g.dims.height = 2 ^ k ∧ ColumnDomains A k short d ∧
        e.evals.columns = g.evals.columns.map fun col => A.fft d (A.ifft short col) := by
  obtain ⟨-, hheight, hwidth, short, d, hshort, hd, -, hcolumns⟩ := EvaluationGrid.extendColumns_eq_ok he
  obtain ⟨k, hk⟩ := h.height
  have hlong : e.dims.height = 2 * 2 ^ k := by rw [hheight, hk, Nat.mul_comm]
  exact ⟨hheight, hwidth, k, short, d, hk, ⟨hk ▸ hshort, hlong ▸ hd⟩, hcolumns⟩

/-- Row by row, the bytes are those of the chunks. -/
theorem rowBytes_rowMajor : rowBytes A g.rowMajor = some (held.flatMap Prod.snd ++ filler).flatten := by
  apply rowBytes_of_hasBytes
  rw [← g.dims.map_iterData h.size [], g.rowMajor_eq, List.forall₂_map_left_iff, List.forall₂_map_right_iff,
    List.forall₂_same]
  intro p hp
  obtain ⟨hrow, hcol⟩ := g.dims.mem_iterData.mp hp
  obtain ⟨s, hs, hbytes⟩ := h.cell p.1 hrow p.2 hcol
  rw [hs]
  exact hbytes

/-- From half of the extended columns, the bytes that come back are those of the chunks. -/
theorem reconstructAvailable_eq {k : ℕ} {short d : EvaluationDomain} (hdom : ColumnDomains A k short d)
    (hk : g.dims.height = 2 ^ k) {cells : List DataCell}
    (hcells : HalfOf A g.dims (fun col => A.fft d (A.ifft short (g.evals.column col))) cells) (R : Runtime) :
    reconstructAvailable A R g.dims cells =
      .ok ((held.map fun x => x.2.flatten).flatten ++ filler.flatten) := by
  have hlength : ∀ col < g.dims.width, (g.evals.column col).length = 2 ^ k := by
    intro col hcol
    rw [g.evals.length_column_of_lt hcol, hk]
  have hbytes : ∀ p ∈ g.dims.iterData, ∃ s b, (g.evals.column p.2)[p.1]? = some s ∧ A.toBytes s = some b ∧
      b.val = (held.flatMap Prod.snd ++ filler).getD (p.1 * g.dims.width + p.2) [] := by
    intro p hp
    obtain ⟨hrow, hcol⟩ := g.dims.mem_iterData.mp hp
    obtain ⟨s, hs, b, hb, hval⟩ := h.cell p.1 hrow p.2 hcol
    rw [g.evals.get_eq_column] at hs
    exact ⟨s, b, hs, hb, hval⟩
  have hheld : (held.flatMap Prod.snd).flatten = (held.map fun x => x.2.flatten).flatten := by
    rw [List.flatMap_def, List.flatten_flatten, List.map_map]
    rfl
  rw [reconstructAvailable_extended hdom hk hlength hcells R hbytes, g.dims.map_iterData h.size,
    List.flatten_append, hheld]

/-- From these bytes the groups are decoded. -/
theorem unflattenPaddedData_eq (hlen : g.lookup.len.toNat * chunkSize < 2 ^ 32) : ∃ r,
    g.lookup.projectedRanges (UInt32.ofNat chunkSize) = .ok r ∧
      unflattenPaddedData K r ((held.map fun x => x.2.flatten).flatten ++ filler.flatten) =
        .ok (held.map Prod.fst) := by
  obtain ⟨L, hitems, hlookup⟩ := fromIdAndLenIter_eq_ok_iff.mp h.lookup
  have hlt : total L.items * chunkSize < 2 ^ 32 := by
    rwa [hlookup, L.lookup_len, toNat_ofNat_of_lt L.total_lt] at hlen
  have hfiller : chunkSize ∣ filler.flatten.length := by
    rw [length_flatten_uniform h.length_chunk]
    exact dvd_mul_left _ _
  rw [hlookup]
  refine ⟨_, (projectedRanges_eq_ok_iff L).mpr ⟨hlt, rfl⟩, ?_⟩
  rw [hitems] at hlt ⊢
  exact AvailCore.unflattenPaddedData_eq h.holds hlt hfiller

end EvaluationGrid.Carries

/-- **What a node encodes, a light client decodes.** From at least half of each column of the extended
grid, in any order, the extrinsics come back, grouped. -/
theorem reconstructExtrinsics_extended (A : Ark) (R : Runtime) (K : Codec AppData) (rng : Rng)
    {extrinsics : List AppExtrinsic} {minWidth maxWidth maxHeight : ℕ} {rngSeed : Seed} {g e : EvaluationGrid}
    (hg : EvaluationGrid.fromExtrinsics A K rng extrinsics minWidth maxWidth maxHeight rngSeed = .ok g)
    (he : g.extendColumns A ⟨extensionFactor, by decide⟩ = .ok e) (hlen : g.lookup.len.toNat * chunkSize < 2 ^ 32)
    {cells : List DataCell}
    (hvalue : ∀ c ∈ cells, ∃ s, e.evals.get c.position.row c.position.col = some s ∧ A.toBytes s = some c.data)
    (hnodup : (cells.map DataCell.position).Nodup)
    (hhalf : ∀ col < e.dims.width, g.dims.height ≤ (inColumn cells col).length) :
    reconstructExtrinsics A R K g.lookup g.dims cells = .ok (groupsOf extrinsics) := by
  obtain ⟨-, hcarries⟩ := EvaluationGrid.carries_of_fromExtrinsics hg
  obtain ⟨hheight, hwidth, k, short, d, hk, hdom, hcolumns⟩ := hcarries.exists_columnDomains he
  have hcells := halfOf_of_columns_eq hheight hwidth hcolumns hvalue hnodup hhalf
  have hdata := hcarries.reconstructAvailable_eq hdom hk hcells R
  obtain ⟨r, hr, hdecode⟩ := hcarries.unflattenPaddedData_eq hlen
  rw [map_fst_chunkedGroups] at hdecode
  simp only [reconstructExtrinsics, hdata, hr, hdecode, Except.ok_bind, Run.mapErr_ok]

/-! ### Two applications -/

/-- The scalar of a number of bytes. -/
def scalarOf (bytes : List UInt8) : ArkScalar := ((leValue bytes : ℕ) : ArkScalar)

/-- At most 31 bytes, filled up, are their scalar. -/
theorem padToBlsScalar_bls12381 {a : List UInt8} (h : a.length ≤ dataChunkSize) :
    padToBlsScalar bls12381 a = .ok (scalarOf a) := by
  have hvalue : leValue (resizeTo 0 chunkSize a) = leValue a := by
    rw [resizeTo_of_le (h.trans dataChunkSize_le), leValue_append, leValue_replicate_zero, Nat.mul_zero, Nat.add_zero]
  have hlt : leValue a < scalarModulus := by
    refine (leValue_lt a).trans_le ((Nat.pow_le_pow_right (by decide) h).trans ?_)
    decide
  rw [padToBlsScalar, decide_eq_true h, Run.ensure_true, Except.ok_bind]
  simp only [bls12381, hvalue, if_pos hlt, Run.okOr_some, scalarOf]

/-- Two rows of four: the chunk of the first application, the four of the second, and a filler. -/
def twoAppsScalars : List ArkScalar :=
  scalarOf [4, 4, 5] :: longChunks.map scalarOf ++ List.replicate 3 (scalarOf (List.replicate 31 7))

def twoAppsGrid : EvaluationGrid where
  lookup := ⟨[(⟨1⟩, ⟨0, 1⟩), (⟨2⟩, ⟨1, 5⟩)]⟩
  dims := ⟨⟨2, NonZeroU16.two_bounds⟩, ⟨4, by decide⟩⟩
  evals := ⟨(List.range 4).map fun col => (List.range 2).map fun row => twoAppsScalars.getD (row * 4 + col) 0,
    by simp [Dimensions.width], by simp [Dimensions.height]⟩

theorem fromExtrinsics_twoApps (seed : Seed) :
    EvaluationGrid.fromExtrinsics bls12381 scaleAppData (fun _ _ => List.Vector.replicate 31 7) twoApps 4 4 2 seed =
      .ok twoAppsGrid := by
  have hlongChunks : chunks dataChunkSize (4 :: 145 :: 1 :: List.replicate 100 7) = longChunks := by decide +kernel
  have hlongScalars : longChunks.mapM (padToBlsScalar bls12381) = .ok (longChunks.map scalarOf) := by
    rw [Except.mapM_ok_iff, List.forall₂_map_right_iff, List.forall₂_same]
    exact fun c hc => padToBlsScalar_bls12381 (by revert c; decide)
  have hscalars : (groupsOf twoApps).mapM (scalarsOfGroup bls12381 scaleAppData) =
      .ok [(⟨1⟩, [scalarOf [4, 4, 5]]), (⟨2⟩, longChunks.map scalarOf)] := by
    have hshort : scaleAppData.encode [[5]] = some [4, 4, 5] := rfl
    have hshortChunks : chunks dataChunkSize ([4, 4, 5] : List UInt8) = [[4, 4, 5]] := by decide
    have hshortScalar := @padToBlsScalar_bls12381 [4, 4, 5] (by decide)
    simp only [groupsOf_twoApps, List.mapM_cons, List.mapM_nil, scalarsOfGroup, hshort, hshortChunks, hshortScalar, encode_longData,
      hlongChunks, hlongScalars, Run.unwrap_some, Except.ok_bind]
    rfl
  have hfiller : (List.range 3).mapM (fun _ =>
      (Run.expect (padToBlsScalar bls12381 (List.replicate 31 7)) : Run KateError _)) =
        .ok (List.replicate 3 (scalarOf (List.replicate 31 7))) := by
    rw [@padToBlsScalar_bls12381 (List.replicate 31 7) (by decide)]
    rfl
  refine EvaluationGrid.fromExtrinsics_eq_ok_iff.mpr ⟨_, _, hscalars, rfl, ?_, hfiller, ?_⟩
  · exact (getBlockDims_eq_ok_wide (by decide)).mpr ⟨rfl, by decide, by decide⟩
  · rfl

/-- Four rows: the columns, extended. -/
def twoAppsExtended : EvaluationGrid where
  lookup := twoAppsGrid.lookup
  dims := ⟨⟨4, by decide⟩, ⟨4, by decide⟩⟩
  evals := ⟨twoAppsGrid.evals.columns.map fun col =>
      bls12381.fft ⟨4, ArkScalar.rootOfUnity 2⟩ (bls12381.ifft ⟨2, ArkScalar.rootOfUnity 1⟩ col),
    by rw [List.length_map]; exact twoAppsGrid.evals.length_columns, by
      rw [List.forall_mem_map]
      exact fun _ _ => (bls12381.isTransform bls12381_newDomain_four).length_fft _⟩

theorem extendColumns_twoApps : twoAppsGrid.extendColumns bls12381 ⟨2, by decide⟩ = .ok twoAppsExtended :=
  EvaluationGrid.extendColumns_eq_ok_of rfl rfl bls12381_newDomain_two bls12381_newDomain_four rfl rfl

/-- Half of each column: of the data, of the extension, or of both. -/
def halfPositions : List Position := [⟨3, 1⟩, ⟨1, 0⟩, ⟨2, 0⟩, ⟨0, 1⟩, ⟨2, 2⟩, ⟨0, 2⟩, ⟨1, 3⟩, ⟨3, 3⟩]

/-- A scalar more than two rows of 256 take four rows, and one more than 256 rows is too much. -/
theorem getBlockDims_keeps_scalars_one :
    FitsBlock 513 4 256 256 ⟨⟨4, by decide⟩, ⟨256, by decide⟩⟩ ∧
    (∃ e, getBlockDims 65537 4 256 256 = Run.fail e) ∧
    ∃ scalarsByApp filler, (groupsOf twoApps).mapM (scalarsOfGroup bls12381 scaleAppData) = .ok scalarsByApp ∧
      twoAppsGrid.rowMajor = scalarsByApp.flatMap Prod.snd ++ filler := by
  refine ⟨?_, ?_, ?_⟩
  · apply (getBlockDims_keeps_scalars 513 4 256 256).1
    exact (getBlockDims_eq_ok_wide (by decide)).mpr ⟨rfl, by decide, by decide⟩
  · apply ((getBlockDims_keeps_scalars 65537 4 256 256).2.1 8 rfl (by decide) (by decide) (by decide)).mpr
    left
    decide
  · exact (getBlockDims_keeps_scalars 5 4 4 2).2.2 bls12381 scaleAppData _ twoApps (List.Vector.replicate 32 0) _
      (fromExtrinsics_twoApps _)

theorem extendColumns_systematic_two : EvaluationGrid.ExtendedBy bls12381 2 twoAppsGrid twoAppsExtended :=
  EvaluationGrid.extendColumns_systematic extendColumns_twoApps

theorem reconstructExtrinsics_extended_two :
    reconstructExtrinsics bls12381 Runtime.plain scaleAppData twoAppsGrid.lookup twoAppsGrid.dims
      (halfPositions.map (twoAppsExtended.cellAt bls12381)) =
        .ok [(⟨1⟩, [[5]]), (⟨2⟩, [List.replicate 100 7])] := by
  rw [← groupsOf_twoApps]
  refine reconstructExtrinsics_extended bls12381 Runtime.plain scaleAppData _
    (fromExtrinsics_twoApps (List.Vector.replicate 32 0)) extendColumns_twoApps (by decide)
    (twoAppsExtended.hasCell_cellAt bls12381 (by decide)) ?_ ?_
  · rw [twoAppsExtended.map_position_cellAt]
    decide
  · simp only [length_inColumn, twoAppsExtended.map_position_cellAt]
    decide

/-! ### One scalar -/

/-- A column of the scalar of the bytes `[4, 4, 5]`. -/
def oneColumn (rows : NonZeroU16) : EvaluationGrid :=
  ⟨⟨[(⟨0⟩, ⟨0, 1⟩)]⟩, ⟨rows, ⟨1, by decide⟩⟩,
    ⟨[List.replicate rows.val 328708], rfl, by simp [Dimensions.height]⟩⟩

theorem extendColumns_one :
    (oneColumn ⟨1, by decide⟩).extendColumns bls12381 ⟨2, by decide⟩ = .ok (oneColumn ⟨2, by decide⟩) :=
  EvaluationGrid.extendColumns_eq_ok_of rfl rfl bls12381_newDomain_one bls12381_newDomain_two rfl
    (congrArg (fun column => [column]) (bls12381_extend_one ..).symm)

end AvailCore
