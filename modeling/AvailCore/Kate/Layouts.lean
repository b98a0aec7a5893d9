import AvailCore.Kate.EvaluationGrid

/-!
# The two layouts of a block

`flatten_and_pad_block` and `EvaluationGrid::from_extrinsics` lay the same extrinsics
out. The first sorts them, pads each group to whole chunks with at least one zero, and
chooses the dimensions by bytes; the second groups them in a map, cuts each group into
chunks and fills the last one up, and chooses the dimensions by scalars.

## What is proved

The chunks of a group are the same, and one more of zeros in the padded layout when the
encoding ends with a whole chunk (`padGroup_eq_ok`). So the layouts differ by those
chunks only, and where there are none of them both fail, or both give one block: counts,
dimensions and bytes, those of the filler too (`flattenAndPadBlock_fromExtrinsics`).
-/

namespace AvailCore

open Chunks

/-- The number of chunks of each application. -/
def DataLookup.counts (l : DataLookup) : List (AppId × ℕ) :=
  l.index.map fun x => (x.1, x.2.end_.toNat - x.2.start.toNat)

/-- The encoding of a group ends with a whole chunk, or is empty. -/
def EndsWhole (K : Codec AppData) (group : AppId × AppData) : Prop :=
  dataChunkSize ∣ ((K.encode group.2).getD []).length

instance (K : Codec AppData) (group : AppId × AppData) : Decidable (EndsWhole K group) :=
  inferInstanceAs (Decidable (_ ∣ _))

/-- The chunks of a group that is padded. -/
def paddedChunks (K : Codec AppData) (group : AppId × AppData) : List (List UInt8) :=
  groupChunks K group ++ if EndsWhole K group then [List.replicate chunkSize 0] else []

/-- Groups with their chunks, padded. -/
def paddedGroups (K : Codec AppData) (groups : List (AppId × AppData)) :
    List ((AppId × AppData) × List (List UInt8)) :=
  groups.map fun group => (group, paddedChunks K group)

theorem length_of_mem_paddedChunks {K : Codec AppData} {group : AppId × AppData} {chunk : List UInt8}
    (h : chunk ∈ paddedChunks K group) : chunk.length = chunkSize := by
  rcases List.mem_append.mp h with h | h
  · exact length_of_mem_groupChunks h
  · split_ifs at h
    · rw [List.mem_singleton.mp h, List.length_replicate]
    · cases h

theorem length_of_mem_paddedGroups {K : Codec AppData} {groups : List (AppId × AppData)} {chunk : List UInt8}
    (h : chunk ∈ (paddedGroups K groups).flatMap Prod.snd) : chunk.length = chunkSize := by
  obtain ⟨g, hg, hchunk⟩ := List.mem_flatMap.mp h
  obtain ⟨group, -, rfl⟩ := List.mem_map.mp hg
  exact length_of_mem_paddedChunks hchunk

/-- A layout is its counts. -/
theorem toNat_snd_injective : Function.Injective fun x : AppId × UInt32 => (x.1, x.2.toNat) := by
  intro x y h
  rw [Prod.mk.injEq, UInt32.toNat_inj] at h
  exact Prod.ext h.1 h.2

/-! ### Chunks without padding -/

section Chunked

variable (K : Codec AppData) (extrinsics : List AppExtrinsic)

theorem chunkCounts_chunkedGroups_sorted :
    (chunkCounts (chunkedGroups K (groupsOf extrinsics))).Pairwise fun x y => x.1 < y.1 := by
  rw [chunkCounts, chunkedGroups, List.map_map, List.pairwise_map]
  exact groupsOf_sorted extrinsics

variable {K extrinsics}

/-- A group without chunks is empty. -/
theorem chunkCounts_chunkedGroups_pos (h : ∀ group ∈ groupsOf extrinsics, ¬ EndsWhole K group) :
    ∀ x ∈ chunkCounts (chunkedGroups K (groupsOf extrinsics)), 0 < x.2 := by
  intro x hx
  rw [chunkCounts, chunkedGroups, List.map_map] at hx
  obtain ⟨group, hgroup, rfl⟩ := List.mem_map.mp hx
  refine List.length_pos_iff.mpr fun hnil => h group hgroup ?_
  have hempty := List.map_eq_nil_iff.mp hnil
  have hjoin := flatten_chunks dataChunkSize_pos ((K.encode group.2).getD [])
  rw [hempty, List.flatten_nil] at hjoin
  rw [EndsWhole, ← hjoin]
  exact dvd_zero _

end Chunked

/-! ### The padded layout -/

section Padded

variable {K : Codec AppData}

/-- **The chunks of a padded group.** -/
theorem padGroup_eq_ok {group : AppId × AppData} {enc : List UInt8} (henc : K.encode group.2 = some enc)
    (hshort : enc.length < 2 ^ 32 - 32) : ∃ count cs, padGroup K group = .ok ((group.1, count), cs) ∧
      count.toNat = cs.length ∧ cs.map (padToChunk chunkSize) = paddedChunks K group := by
  have hchunk : dataChunkSize = 31 := rfl
  have hpad := @padIec97971_chunks KateError enc (paddedChunkCount_mul_lt (by omega))
  set cs := (chunks dataChunkSize enc).map (resizeTo 0 dataChunkSize) ++
    if dataChunkSize ∣ enc.length then [List.replicate dataChunkSize 0] else [] with hcs
  have hfilled : cs.map (padToChunk chunkSize) = paddedChunks K group := by
    have hresize : ∀ c ∈ chunks dataChunkSize enc,
        padToChunk chunkSize (resizeTo 0 dataChunkSize c) = resizeTo 0 chunkSize c :=
      fun c hc => resizeTo_resizeTo (length_of_mem_chunks hc).2 dataChunkSize_le
    have hends : EndsWhole K group ↔ dataChunkSize ∣ enc.length := by
      rw [EndsWhole, henc, Option.getD_some]
    rw [hcs, paddedChunks, groupChunks, henc, Option.getD_some, List.map_append, List.map_map, if_congr hends rfl rfl]
    congr 1
    · exact List.map_congr_left hresize
    · split_ifs
      · rfl
      · rfl
  have hcount : cs.length < 2 ^ 32 := by
    have hlen : (chunks dataChunkSize enc).length ≤ enc.length := by
      rw [chunks, List.length_map, List.length_range]
      show (enc.length + 31 - 1) / 31 ≤ enc.length
      omega
    have hextra : (if dataChunkSize ∣ enc.length then [List.replicate dataChunkSize (0 : UInt8)] else []).length ≤ 1 := by
      split_ifs
      · exact le_rfl
      · exact Nat.zero_le 1
    rw [hcs, List.length_append, List.length_map]
    omega
  refine ⟨UInt32.ofNat cs.length, cs, ?_, toNat_ofNat_of_lt hcount, hfilled⟩
  rw [padGroup, henc, Run.unwrap_some, Except.ok_bind, hpad, Except.ok_bind, u32TryFrom, if_pos hcount]
  rfl

/-- The groups of a block are encoded, in fewer bytes than a padded `u32` can count. -/
def Encoded (K : Codec AppData) (groups : List (AppId × AppData)) : Prop :=
  ∀ group ∈ groups, ∃ enc, K.encode group.2 = some enc ∧ enc.length < 2 ^ 32 - 32

/-- The layout counts the chunks of the padded groups, and the block goes through them. -/
theorem mapM_padGroup {groups : List (AppId × AppData)} (h : Encoded K groups) :
    ∃ padded, groups.mapM (padGroup K) = .ok padded ∧
      (padded.map Prod.fst).map (fun x => (x.1, x.2.toNat)) = chunkCounts (paddedGroups K groups) ∧
      (padded.flatMap fun p => p.2.map (padToChunk chunkSize)) = (paddedGroups K groups).flatMap Prod.snd := by
  induction groups with
  | nil => exact ⟨[], rfl, rfl, rfl⟩
  | cons group groups ih =>
    obtain ⟨enc, henc, hshort⟩ := h group (List.mem_cons_self ..)
    obtain ⟨count, cs, hpad, hcount, hcs⟩ := padGroup_eq_ok henc hshort
    obtain ⟨padded, hpadded, hcounts, hchunks⟩ := ih fun g hg => h g (List.mem_cons_of_mem _ hg)
    have hlen : count.toNat = (paddedChunks K group).length := by rw [hcount, ← hcs, List.length_map]
    refine ⟨((group.1, count), cs) :: padded, ?_, ?_, ?_⟩
    · rw [List.mapM_cons, hpad, hpadded]
      rfl
    · rw [List.map_cons, List.map_cons, hcounts, hlen]
      rfl
    · rw [List.flatMap_cons, hchunks, hcs]
      rfl

end Padded

/-- The limits on the rows and columns of a block: powers of two, at least four columns, and a size that fits. -/
structure BlockLimits (maxRows maxCols : UInt32) : Prop where
  rows : isPowerOfTwo maxRows.toNat = true
  cols : isPowerOfTwo maxCols.toNat = true
  min_cols : 4 ≤ maxCols.toNat
  size_lt : maxRows.toNat * maxCols.toNat * 32 < 2 ^ 32
  rows_lt : maxRows.toNat < 2 ^ 16
  cols_lt : maxCols.toNat < 2 ^ 16

/-- What is left of a block of this shape is whole chunks. -/
theorem size_sub_of_blockShape {maxCols n : ℕ} (hpos : 0 < maxCols) {d : BlockDimensions}
    (hshape : (d.rows.toNat, d.cols.toNat) = blockShape maxCols n) (hchunkSize : d.chunkSize = 32) :
    n * 32 ≤ d.size ∧ d.size - n * 32 = (d.rows.toNat * d.cols.toNat - n) * 32 := by
  have hroom := @le_blockShape maxCols n hpos
  rw [← hshape] at hroom
  rw [d.size_of_chunkSize hchunkSize, Nat.sub_mul]
  exact ⟨Nat.mul_le_mul_right 32 hroom, rfl⟩

section Layouts

variable {maxRows maxCols : UInt32} (hlimits : BlockLimits maxRows maxCols) {K : Codec AppData}
  {extrinsics : List AppExtrinsic} (hencoded : Encoded K (groupsOf extrinsics)) {rng : Rng} {rngSeed : Seed} {b : Build}
include hlimits hencoded

/-- **The padded layout**: it fits or not, and then its shape and its bytes are given by its chunks. -/
theorem flattenAndPadBlock_eq_ok_iff {cells : List (List UInt8)}
    (hcells : cells = (paddedGroups K (groupsOf extrinsics)).flatMap Prod.snd) {layout : List (AppId × UInt32)}
    {data : List UInt8} {dims : BlockDimensions} :
    flattenAndPadBlock b false K rng chunkSize maxRows maxCols extrinsics rngSeed = .ok (layout, data, dims) ↔
      cells.length ≤ maxRows.toNat * maxCols.toNat ∧
      layout.map (fun x => (x.1, x.2.toNat)) = chunkCounts (paddedGroups K (groupsOf extrinsics)) ∧
      (dims.rows.toNat, dims.cols.toNat) = blockShape maxCols.toNat cells.length ∧ dims.chunkSize = 32 ∧
      data = (cells ++ fillerChunks (rng rngSeed) (dims.rows.toNat * dims.cols.toNat - cells.length)).flatten := by
  obtain ⟨padded, hpadded, hcounts, hchunks⟩ := mapM_padGroup hencoded
  obtain ⟨r, hrows⟩ := exists_of_isPowerOfTwo hlimits.rows
  obtain ⟨c, hcols⟩ := exists_of_isPowerOfTwo hlimits.cols
  have hmin := hlimits.min_cols
  have hlength : cells.flatten.length = cells.length * 32 := by
    rw [hcells]
    exact length_flatten_uniform fun chunk hchunk => length_of_mem_paddedGroups hchunk
  have hshaped := fun len d (hlen : UInt32.toNat len = cells.length * 32) =>
    @getBlockDimensions_eq_ok_iff _ _ len cells.length r c hrows hcols hmin hlimits.size_lt hlen d
  have hpos : 0 < maxCols.toNat := Nat.zero_lt_of_lt hmin
  have hlayout : layout.map (fun x => (x.1, x.2.toNat)) = chunkCounts (paddedGroups K (groupsOf extrinsics)) ↔
      padded.map Prod.fst = layout := by
    rw [← hcounts, (List.map_injective_iff.mpr toNat_snd_injective).eq_iff, eq_comm]
  simp only [flattenAndPadBlock, appExtrinsicsGroupByAppId_sort, hpadded, Except.ok_bind, hchunks, ← hcells, hlength,
    Except.bind_eq_ok, Run.okOr_eq_ok, u32TryFrom_eq_some, Run.ensure_eq_ok, decide_eq_true_eq, Run.assert_eq_ok,
    Except.pure_eq_ok, Except.ok.injEq, Prod.mk.injEq, hlayout]
  constructor
  · intro h
    obtain ⟨len, hlen, d, hd, -, -, -, -, rfl, rfl, rfl⟩ := h
    obtain ⟨hfits, hshape, hchunkSize⟩ := (hshaped len d hlen).mp hd
    obtain ⟨-, hrest⟩ := size_sub_of_blockShape hpos hshape hchunkSize
    refine ⟨hfits, rfl, hshape, hchunkSize, ?_⟩
    rw [hrest, Nat.mul_div_cancel _ chunkSize_pos, List.flatten_append]
    rfl
  · intro h
    obtain ⟨hfits, rfl, hshape, hchunkSize, rfl⟩ := h
    obtain ⟨hle, hrest⟩ := size_sub_of_blockShape hpos hshape hchunkSize
    have hlen : (UInt32.ofNat (cells.length * 32)).toNat = cells.length * 32 :=
      toNat_ofNat_of_lt ((Nat.mul_le_mul_right 32 hfits).trans_lt hlimits.size_lt)
    refine ⟨_, hlen, dims, (hshaped _ dims hlen).mpr ⟨hfits, hshape, hchunkSize⟩, (), hle, (), ?_, rfl, ?_, rfl⟩
    · rw [hrest, Nat.mul_mod_left]
      exact Or.inr rfl
    · rw [hrest, Nat.mul_div_cancel _ chunkSize_pos, List.flatten_append]
      rfl

/-- What fits has a padded layout. -/
theorem exists_flattenAndPadBlock
    (hfits : ((paddedGroups K (groupsOf extrinsics)).flatMap Prod.snd).length ≤ maxRows.toNat * maxCols.toNat) :
    ∃ out, flattenAndPadBlock b false K rng chunkSize maxRows maxCols extrinsics rngSeed = .ok out := by
  obtain ⟨padded, -, hcounts, -⟩ := mapM_padGroup hencoded
  obtain ⟨r, hrows⟩ := exists_of_isPowerOfTwo hlimits.rows
  obtain ⟨c, hcols⟩ := exists_of_isPowerOfTwo hlimits.cols
  set n := ((paddedGroups K (groupsOf extrinsics)).flatMap Prod.snd).length with hn
  have hfst := blockShape_fst_le hrows hcols hfits
  have hsnd := @blockShape_snd_le _ n c hcols hlimits.min_cols
  have hrowsNat : (UInt32.ofNat (blockShape maxCols.toNat n).1).toNat = (blockShape maxCols.toNat n).1 :=
    toNat_ofNat_of_lt (hfst.trans_lt maxRows.toNat_lt)
  have hcolsNat : (UInt32.ofNat (blockShape maxCols.toNat n).2).toNat = (blockShape maxCols.toNat n).2 :=
    toNat_ofNat_of_lt (hsnd.trans_lt maxCols.toNat_lt)
  have hsize := (Nat.mul_le_mul_right 32 (Nat.mul_le_mul hfst hsnd)).trans_lt hlimits.size_lt
  refine ⟨(padded.map Prod.fst, _, ⟨UInt32.ofNat (blockShape maxCols.toNat n).1,
    UInt32.ofNat (blockShape maxCols.toNat n).2, 32, _, rfl, ?_⟩),
    (flattenAndPadBlock_eq_ok_iff hlimits hencoded rfl).mpr ⟨hfits, hcounts, ?_, rfl, rfl⟩⟩
  · rw [hrowsNat, hcolsNat]
    exact hsize
  · exact Prod.ext hrowsNat hcolsNat

omit hencoded in
/-- **The layout of the grid**: its shape and its bytes are given by its chunks. -/
theorem fromExtrinsics_eq_ok {A : Ark} {g : EvaluationGrid}
    (h : EvaluationGrid.fromExtrinsics A K rng extrinsics 4 maxCols.toNat maxRows.toNat rngSeed = .ok g)
    {cells : List (List UInt8)} (hcells : cells = (chunkedGroups K (groupsOf extrinsics)).flatMap Prod.snd) :
    cells.length ≤ maxRows.toNat * maxCols.toNat ∧ g.lookup.counts = chunkCounts (chunkedGroups K (groupsOf extrinsics)) ∧
      (g.dims.height, g.dims.width) = blockShape maxCols.toNat cells.length ∧
      rowBytes A g.rowMajor = some (cells ++ fillerChunks (rng rngSeed) (g.dims.size - cells.length)).flatten := by
  obtain ⟨hdims, hcarries⟩ := EvaluationGrid.carries_of_fromExtrinsics h
  obtain ⟨r, hrows⟩ := exists_of_isPowerOfTwo hlimits.rows
  obtain ⟨c, hcols⟩ := exists_of_isPowerOfTwo hlimits.cols
  obtain ⟨L, hitems, hlookup⟩ := fromIdAndLenIter_eq_ok_iff.mp hcarries.lookup
  have hlen : g.lookup.len.toNat = cells.length := by
    rw [hlookup, L.lookup_len, toNat_ofNat_of_lt L.total_lt, hitems, total_chunkCounts, hcells]
  rw [hlen, getBlockDims_eq_ok_iff hrows hcols hlimits.min_cols] at hdims
  refine ⟨hdims.1, ?_, hdims.2, ?_⟩
  · rw [hlookup, ← hitems]
    exact L.counts_lookup
  · rw [hcells]
    exact hcarries.rowBytes_rowMajor

/-- What fits has a grid, unless a group is empty. -/
theorem exists_fromExtrinsics_of_fits (A : Ark) (hends : ∀ group ∈ groupsOf extrinsics, ¬ EndsWhole K group)
    (hfits : ((chunkedGroups K (groupsOf extrinsics)).flatMap Prod.snd).length ≤ maxRows.toNat * maxCols.toNat) :
    ∃ g, EvaluationGrid.fromExtrinsics A K rng extrinsics 4 maxCols.toNat maxRows.toNat rngSeed = .ok g := by
  obtain ⟨r, hrows⟩ := exists_of_isPowerOfTwo hlimits.rows
  obtain ⟨c, hcols⟩ := exists_of_isPowerOfTwo hlimits.cols
  set groups := groupsOf extrinsics with hgroups
  have hsize := hlimits.size_lt
  have htotal : total (chunkCounts (chunkedGroups K groups)) < 2 ^ 32 := by
    rw [total_chunkCounts]
    omega
  let L : Layout := ⟨_, chunkCounts_chunkedGroups_sorted K extrinsics, chunkCounts_chunkedGroups_pos hends, htotal⟩
  have hlookup := fromIdAndLenIter_eq_ok_iff.mpr ⟨L, rfl, rfl⟩
  have hlen : L.lookup.len.toNat = ((chunkedGroups K groups).flatMap Prod.snd).length := by
    rw [L.lookup_len, toNat_ofNat_of_lt L.total_lt, ← total_chunkCounts]
  set n := ((chunkedGroups K groups).flatMap Prod.snd).length
  have hfst := blockShape_fst_le hrows hcols hfits
  have hsnd := @blockShape_snd_le _ n c hcols hlimits.min_cols
  obtain ⟨hfstPos, hsndPos⟩ := @blockShape_fst_pos _ n hlimits.min_cols
  obtain ⟨dims, hdims⟩ : ∃ dims, getBlockDims L.lookup.len.toNat 4 maxCols.toNat maxRows.toNat = .ok dims := by
    rw [hlen]
    exact ⟨⟨⟨(blockShape maxCols.toNat n).1, hfstPos, hfst.trans_lt hlimits.rows_lt⟩,
      ⟨(blockShape maxCols.toNat n).2, hsndPos, hsnd.trans_lt hlimits.cols_lt⟩⟩,
      (getBlockDims_eq_ok_iff hrows hcols hlimits.min_cols).mpr ⟨hfits, rfl⟩⟩
  refine EvaluationGrid.exists_fromExtrinsics A rng rngSeed ?_ hlookup hdims
  intro group hgroup
  obtain ⟨enc, henc, -⟩ := hencoded group hgroup
  exact ⟨enc, henc⟩

end Layouts

/-! ### One block -/

/-- A padded layout and a grid are one block: each application has as many chunks, and there are the same rows and
columns, and the same bytes, row by row. -/
structure SameBlock (A : Ark) (layout : List (AppId × UInt32)) (data : List UInt8) (dims : BlockDimensions)
    (g : EvaluationGrid) : Prop where
  counts : layout.map (fun x => (x.1, x.2.toNat)) = g.lookup.counts
  rows : dims.rows.toNat = g.dims.height
  cols : dims.cols.toNat = g.dims.width
  bytes : rowBytes A g.rowMajor = some data

/-- Where no group ends with a whole chunk, nothing is added. -/
theorem paddedGroups_eq {K : Codec AppData} {groups : List (AppId × AppData)}
    (h : ∀ group ∈ groups, ¬ EndsWhole K group) : paddedGroups K groups = chunkedGroups K groups := by
  refine List.map_congr_left fun group hgroup => ?_
  rw [paddedChunks, if_neg (h group hgroup), List.append_nil]

/-- **The two layouts of the extrinsics.** Where no encoding ends with a whole chunk, both fail or they are one
block; and in any case each group has its chunks in both, and one of zeros more in the padded one when its
encoding ends with a whole chunk. -/
theorem flattenAndPadBlock_fromExtrinsics (b : Build) (A : Ark) (K : Codec AppData) (rng : Rng)
    {maxRows maxCols : UInt32} (hlimits : BlockLimits maxRows maxCols) {extrinsics : List AppExtrinsic}
    (hencoded : Encoded K (groupsOf extrinsics)) (rngSeed : Seed) :
    ((∀ group ∈ groupsOf extrinsics, ¬ EndsWhole K group) →
      ((∃ out, flattenAndPadBlock b false K rng chunkSize maxRows maxCols extrinsics rngSeed = .ok out) ↔
        ∃ g, EvaluationGrid.fromExtrinsics A K rng extrinsics 4 maxCols.toNat maxRows.toNat rngSeed = .ok g) ∧
      ∀ layout data dims g,
        flattenAndPadBlock b false K rng chunkSize maxRows maxCols extrinsics rngSeed = .ok (layout, data, dims) →
        EvaluationGrid.fromExtrinsics A K rng extrinsics 4 maxCols.toNat maxRows.toNat rngSeed = .ok g →
        SameBlock A layout data dims g) ∧
    (∀ layout data dims,
      flattenAndPadBlock b false K rng chunkSize maxRows maxCols extrinsics rngSeed = .ok (layout, data, dims) →
      layout.map (fun x => (x.1, x.2.toNat)) = chunkCounts (paddedGroups K (groupsOf extrinsics)) ∧
      ((paddedGroups K (groupsOf extrinsics)).flatMap Prod.snd).flatten <+: data) ∧
    ∀ g, EvaluationGrid.fromExtrinsics A K rng extrinsics 4 maxCols.toNat maxRows.toNat rngSeed = .ok g →
      g.lookup.counts = chunkCounts (chunkedGroups K (groupsOf extrinsics)) ∧
      ∃ bytes, rowBytes A g.rowMajor = some bytes ∧
        ((chunkedGroups K (groupsOf extrinsics)).flatMap Prod.snd).flatten <+: bytes := by
  refine ⟨fun hends => ⟨⟨?_, ?_⟩, ?_⟩, ?_, ?_⟩
  · intro h
    obtain ⟨⟨layout, data, dims⟩, hout⟩ := h
    obtain ⟨hfits, -⟩ := (flattenAndPadBlock_eq_ok_iff hlimits hencoded rfl).mp hout
    rw [paddedGroups_eq hends] at hfits
    exact exists_fromExtrinsics_of_fits hlimits hencoded A hends hfits
  · intro h
    obtain ⟨g, hg⟩ := h
    obtain ⟨hfits, -⟩ := fromExtrinsics_eq_ok hlimits hg rfl
    rw [← paddedGroups_eq hends] at hfits
    exact exists_flattenAndPadBlock hlimits hencoded hfits
  · intro layout data dims g hout hg
    obtain ⟨-, hcounts, hshape, -, rfl⟩ := (flattenAndPadBlock_eq_ok_iff hlimits hencoded rfl).mp hout
    obtain ⟨-, hcounts', hshape', hbytes⟩ := fromExtrinsics_eq_ok hlimits hg rfl
    rw [paddedGroups_eq hends] at hcounts hshape ⊢
    rw [← hshape', Prod.mk.injEq] at hshape
    obtain ⟨hrows, hcols⟩ := hshape
    refine ⟨hcounts.trans hcounts'.symm, hrows, hcols, ?_⟩
    rw [hrows, hcols]
    exact hbytes
  · intro layout data dims hout
    obtain ⟨-, hcounts, -, -, rfl⟩ := (flattenAndPadBlock_eq_ok_iff hlimits hencoded rfl).mp hout
    rw [List.flatten_append]
    exact ⟨hcounts, List.prefix_append ..⟩
  · intro g hg
    obtain ⟨-, hcounts, -, hbytes⟩ := fromExtrinsics_eq_ok hlimits hg rfl
    rw [List.flatten_append] at hbytes
    exact ⟨hcounts, _, hbytes, List.prefix_append ..⟩

/-- Two applications, in two rows of four. -/
theorem flattenAndPadBlock_fromExtrinsics_two :
    flattenAndPadBlock .checked false scaleAppData (fun _ _ => List.Vector.replicate 31 7) chunkSize 2 4 twoApps
        (List.Vector.replicate 32 0) = .ok ([(⟨1⟩, 1), (⟨2⟩, 4)], twoAppsBlock, twoAppsDims) ∧
      EvaluationGrid.fromExtrinsics bls12381 scaleAppData (fun _ _ => List.Vector.replicate 31 7) twoApps 4 4 2
        (List.Vector.replicate 32 0) = .ok twoAppsGrid ∧
      SameBlock bls12381 [(⟨1⟩, 1), (⟨2⟩, 4)] twoAppsBlock twoAppsDims twoAppsGrid := by
  have hlimits : BlockLimits 2 4 := ⟨by decide, by decide, by decide, by decide, by decide, by decide⟩
  have hencode : scaleAppData.encode [[5]] = some [4, 4, 5] := rfl
  have hencoded : Encoded scaleAppData (groupsOf twoApps) := by
    rw [groupsOf_twoApps]
    simp only [Encoded, List.forall_mem_cons, hencode, encode_longData]
    exact ⟨⟨_, rfl, by decide⟩, ⟨_, rfl, by decide⟩, List.forall_mem_nil _⟩
  have hends : ∀ group ∈ groupsOf twoApps, ¬ EndsWhole scaleAppData group := by
    rw [groupsOf_twoApps]
    simp only [EndsWhole, List.forall_mem_cons, hencode, encode_longData]
    exact ⟨by decide, by decide, List.forall_mem_nil _⟩
  have hflatten := flattenAndPadBlock_twoApps (List.Vector.replicate 32 0)
  have hgrid := fromExtrinsics_twoApps (List.Vector.replicate 32 0)
  obtain ⟨hblock, -⟩ := flattenAndPadBlock_fromExtrinsics .checked bls12381 scaleAppData
    (fun _ _ => List.Vector.replicate 31 7) hlimits hencoded (List.Vector.replicate 32 0)
  exact ⟨hflatten, hgrid, (hblock hends).2 _ _ _ _ hflatten hgrid⟩

end AvailCore
