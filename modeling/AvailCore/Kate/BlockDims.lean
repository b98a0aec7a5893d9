import AvailCore.Recovery.Matrix

/-!
# The dimensions of a block

Two functions choose them from the amount of data. `get_block_dimensions` of
`kate/src/com.rs` counts bytes, and `get_block_dims` of `kate/src/gridgen/core.rs`
scalars; both keep the number of rows a power of two.

A `usize` is a natural number, and the operations that check it or saturate are those
of `Word`. `MAXIMUM_BLOCK_SIZE` is a feature of the build, and an argument.

## What is proved

What the grid needs of `getBlockDims`: room for every scalar, in a power of two of rows
and no more of them than there must be (`getBlockDims_fits`). For as many bytes as
scalars both choose one shape, or fail (`getBlockDims_eq_ok_iff`,
`getBlockDimensions_eq_ok_iff`).

The limits of `getBlockDimensions` are not checked once the minimum size is taken: they
are obeyed when four cells are within them, or the block is full
(`getBlockDimensions_limits_iff`).
-/

namespace AvailCore

/-- `com::Error` -/
inductive KateError where
  | plonkErrorPlaceholder
  | duskBytesErrorPlaceholder
  | multiproofError
  | cellLengthExceeded
  | badHeaderHash
  | blockTooBig
  | invalidChunkLength
  | dimensionsMismatch
  | zeroDimension
  | invalidDimensionExtension
  | domainSizeInvalid
  | invalidDataLookup (e : DataLookupError)
  | rng
  | baseGridDomainSizeInvalid (n : ℕ)
  | extendedGridDomainSizeInvalid (n : ℕ)
  | indexOutOfRange
  | conversionFailed
  | invalidMaxRows
  | invalidMaxCols
  deriving DecidableEq, Repr

/-- `MINIMUM_BLOCK_SIZE` -/
def minimumBlockSize : ℕ := 128

/-! ### By bytes -/

/-- `BlockDimensions`, whose size in bytes is that of its cells. -/
structure BlockDimensions where
  rows : UInt32
  cols : UInt32
  chunkSize : UInt32
  size : ℕ
  size_eq : size = rows.toNat * cols.toNat * chunkSize.toNat
  size_lt : size < 2 ^ 32

/-- `BlockDimensions::new` -/
def BlockDimensions.new (rows cols chunkSize : UInt32) : Option BlockDimensions :=
  match hrows : checkedMul rows cols with
  | none => none
  | some rowsCols =>
    match hsize : checkedMul rowsCols chunkSize with
    | none => none
    | some size =>
      some ⟨rows, cols, chunkSize, size.toNat,
        by rw [checkedMul_eq_some.mp hsize, checkedMul_eq_some.mp hrows], size.toNat_lt⟩

theorem BlockDimensions.eq_of_shape {d d' : BlockDimensions} (hrows : d.rows = d'.rows) (hcols : d.cols = d'.cols)
    (hchunkSize : d.chunkSize = d'.chunkSize) : d = d' := by
  obtain ⟨rows, cols, chunkSize, size, rfl, _⟩ := d
  obtain ⟨rows', cols', chunkSize', size', rfl, _⟩ := d'
  cases hrows
  cases hcols
  cases hchunkSize
  rfl

/-- The size of a block of whole chunks. -/
theorem BlockDimensions.size_of_chunkSize {d : BlockDimensions} (h : d.chunkSize = 32) :
    d.size = d.rows.toNat * d.cols.toNat * 32 := by
  rw [d.size_eq, h]
  rfl

theorem BlockDimensions.shape_of_new {rows cols chunkSize : UInt32} {d : BlockDimensions}
    (h : BlockDimensions.new rows cols chunkSize = some d) :
    d.rows = rows ∧ d.cols = cols ∧ d.chunkSize = chunkSize := by
  unfold BlockDimensions.new at h
  split at h
  · cases h
  · split at h
    · cases h
    · cases h
      exact ⟨rfl, rfl, rfl⟩

theorem BlockDimensions.new_isSome {rows cols chunkSize : UInt32} (hpos : 0 < chunkSize.toNat)
    (hlt : rows.toNat * cols.toNat * chunkSize.toNat < 2 ^ 32) :
    (BlockDimensions.new rows cols chunkSize).isSome := by
  have hle : rows.toNat * cols.toNat ≤ rows.toNat * cols.toNat * chunkSize.toNat := Nat.le_mul_of_pos_right _ hpos
  have hrowsCols : checkedMul rows cols = some (UInt32.ofNat (rows.toNat * cols.toNat)) :=
    checkedMul_eq_some.mpr (toNat_ofNat_of_lt (hle.trans_lt hlt))
  have hsize : checkedMul (UInt32.ofNat (rows.toNat * cols.toNat)) chunkSize =
      some (UInt32.ofNat (rows.toNat * cols.toNat * chunkSize.toNat)) := by
    rw [checkedMul_eq_some, toNat_ofNat_of_lt (hle.trans_lt hlt), toNat_ofNat_of_lt hlt]
  unfold BlockDimensions.new
  split
  · next hnone =>
    rw [hrowsCols] at hnone
    cases hnone
  · next rowsCols hsome =>
    rw [hrowsCols] at hsome
    cases hsome
    split
    · next hnone =>
      rw [hsize] at hnone
      cases hnone
    · rfl

theorem BlockDimensions.exists_of_shape {rows cols : ℕ} (hrows : 0 < rows) (hcols : 0 < cols)
    (h : rows * cols * 32 < 2 ^ 32) :
    ∃ d : BlockDimensions, (d.rows.toNat, d.cols.toNat) = (rows, cols) ∧ d.chunkSize = 32 := by
  have hrowsLt : rows < 2 ^ 32 := by
    have hle := Nat.le_mul_of_pos_right rows hcols
    omega
  have hcolsLt : cols < 2 ^ 32 := by
    have hle := Nat.le_mul_of_pos_left cols hrows
    omega
  have hnew : (BlockDimensions.new (UInt32.ofNat rows) (UInt32.ofNat cols) 32).isSome := by
    apply BlockDimensions.new_isSome
    · decide
    · rwa [toNat_ofNat_of_lt hrowsLt, toNat_ofNat_of_lt hcolsLt]
  obtain ⟨d, hd⟩ := Option.isSome_iff_exists.mp hnew
  obtain ⟨hdRows, hdCols, hdChunk⟩ := BlockDimensions.shape_of_new hd
  refine ⟨d, ?_, hdChunk⟩
  rw [hdRows, hdCols, toNat_ofNat_of_lt hrowsLt, toNat_ofNat_of_lt hcolsLt]

/-- The dimensions of this shape. -/
theorem BlockDimensions.new_eq_some_iff {rows cols chunkSize : UInt32} (hpos : 0 < chunkSize.toNat)
    {d : BlockDimensions} :
    BlockDimensions.new rows cols chunkSize = some d ↔ d.rows = rows ∧ d.cols = cols ∧ d.chunkSize = chunkSize := by
  constructor
  · exact BlockDimensions.shape_of_new
  · intro h
    obtain ⟨rfl, rfl, rfl⟩ := h
    obtain ⟨d', hd'⟩ := Option.isSome_iff_exists.mp (BlockDimensions.new_isSome hpos (d.size_eq ▸ d.size_lt))
    obtain ⟨hrows, hcols, hchunkSize⟩ := BlockDimensions.shape_of_new hd'
    rw [hd', BlockDimensions.eq_of_shape hrows hcols hchunkSize]

/-- `get_block_dimensions::<CHUNK_SIZE>` -/
def getBlockDimensions (maximumBlockSize : Bool) (c : ℕ) (blockSize maxRows maxCols : UInt32) :
    Run KateError BlockDimensions := do
  Run.ensure (isPowerOfTwo maxRows.toNat) .invalidMaxRows
  Run.ensure (isPowerOfTwo maxCols.toNat) .invalidMaxCols
  let maxBlockDimensions ← Run.okOr .blockTooBig (BlockDimensions.new maxRows maxCols (UInt32.ofNat c))
  Run.ensure (blockSize.toNat ≤ maxBlockDimensions.size) .blockTooBig
  if blockSize.toNat = maxBlockDimensions.size ∨ maximumBlockSize = true then return maxBlockDimensions
  else do
    let nearestPower2Size := (checkedNextPowerOfTwo blockSize.toNat).getD maxBlockDimensions.size
    let nearestPower2Size := max nearestPower2Size minimumBlockSize
    let roundedSize ← Run.okOr .blockTooBig (usizeCheckedAdd nearestPower2Size (c - 1))
    let totalCells ← Run.okOr .conversionFailed (u32TryFrom (roundedSize / c))
    -- as few rows as the columns allow
    let nzMaxCols ← Run.okOr .zeroDimension (if maxCols = 0 then none else some maxCols)
    let colsRows := if maxCols < totalCells then (maxCols, totalCells / nzMaxCols) else (totalCells, 1)
    Run.okOr .blockTooBig (BlockDimensions.new colsRows.2 colsRows.1 (UInt32.ofNat c))

/-- The chunk size is the one asked for. -/
theorem chunkSize_of_getBlockDimensions {maximumBlockSize : Bool} {c : ℕ} {blockSize maxRows maxCols : UInt32}
    {d : BlockDimensions} (h : getBlockDimensions maximumBlockSize c blockSize maxRows maxCols = .ok d) :
    d.chunkSize = UInt32.ofNat c := by
  simp only [getBlockDimensions, Except.bind_eq_ok, Run.okOr_eq_ok] at h
  obtain ⟨-, -, -, -, maxDims, hmax, -, -, h⟩ := h
  by_cases hfull : blockSize.toNat = maxDims.size ∨ maximumBlockSize = true
  · rw [if_pos hfull] at h
    cases h
    exact (BlockDimensions.shape_of_new hmax).2.2
  · rw [if_neg hfull] at h
    simp only [Except.bind_eq_ok, Run.okOr_eq_ok] at h
    obtain ⟨_, -, _, -, _, -, hnew⟩ := h
    exact (BlockDimensions.shape_of_new hnew).2.2

/-! ### By scalars -/

/-- `round_up_to_multiple` -/
def roundUpToMultiple (input : ℕ) (multiple : NonZeroU16) : ℕ :=
  let nMultiples := saturatingAdd input (multiple.val - 1) / multiple.val
  saturatingMul nMultiples multiple.val

/-- `get_block_dims` -/
def getBlockDims (nScalars minWidth maxWidth maxHeight : ℕ) : Run KateError Dimensions :=
  if nScalars < maxWidth then do
    -- less than a row of `maxWidth`
    let nextWidth ← Run.okOr .blockTooBig (checkedNextPowerOfTwo nScalars)
    let width := max nextWidth minWidth
    Run.okOr .zeroDimension (Dimensions.newFrom 1 width)
  else do
    let width ← Run.okOr .zeroDimension (NonZeroU16.tryFrom maxWidth)
    let currentHeight := roundUpToMultiple nScalars width / maxWidth
    let height ← Run.okOr .blockTooBig (checkedNextPowerOfTwo currentHeight)
    Run.ensure (height ≤ maxHeight) .blockTooBig
    Run.okOr .zeroDimension (Dimensions.newFrom height width.val)

/-- The product does not saturate: it is at most the sum, which is a `usize`. -/
theorem roundUpToMultiple_div (input : ℕ) (multiple : NonZeroU16) :
    roundUpToMultiple input multiple / multiple.val = saturatingAdd input (multiple.val - 1) / multiple.val := by
  have hle : saturatingAdd input (multiple.val - 1) / multiple.val * multiple.val ≤ usizeLimit - 1 :=
    (Nat.div_mul_le_self _ _).trans (Nat.min_le_right _ _)
  rw [roundUpToMultiple, saturatingMul, Nat.min_eq_left hle, Nat.mul_div_cancel _ multiple.property.1]

/-- Where the sum does not saturate either, this is the number of multiples that hold the input. -/
theorem roundUpToMultiple_div_eq {input : ℕ} {multiple : NonZeroU16} (h : input + multiple.val ≤ usizeLimit) :
    roundUpToMultiple input multiple / multiple.val = (input + multiple.val - 1) / multiple.val := by
  have hpos := multiple.property.1
  have hadd : saturatingAdd input (multiple.val - 1) = input + (multiple.val - 1) := Nat.min_eq_left (by omega)
  rw [roundUpToMultiple_div, hadd, Nat.add_sub_assoc hpos]

/-- A sum that saturates has too many multiples for a `u16`. -/
theorem add_le_of_roundUpToMultiple_lt {input : ℕ} {multiple : NonZeroU16}
    (h : roundUpToMultiple input multiple / multiple.val < 2 ^ 16) : input + multiple.val ≤ usizeLimit := by
  obtain ⟨m, hpos, hlt⟩ := multiple
  have hlimit : usizeLimit = 2 ^ 64 := rfl
  rw [roundUpToMultiple_div, Nat.div_lt_iff_lt_mul hpos] at h
  dsimp only at h ⊢
  by_contra hover
  have hsat : saturatingAdd input (m - 1) = usizeLimit - 1 := Nat.min_eq_right (by omega)
  rw [hsat] at h
  omega

/-! ### Room for every scalar -/

section GetBlockDims

variable {n minWidth maxWidth maxHeight : ℕ} {d : Dimensions}

/-- Less than a row is one row. -/
theorem getBlockDims_eq_ok_narrow (hn : n < maxWidth) :
    getBlockDims n minWidth maxWidth maxHeight = .ok d ↔ d.height = 1 ∧ d.width = max (nextPowerOfTwo n) minWidth := by
  rw [getBlockDims, if_pos hn]
  simp only [Except.bind_eq_ok, Run.okOr_eq_ok, Dimensions.newFrom_eq_some]
  constructor
  · intro h
    obtain ⟨width, hnext, hrows, hcols⟩ := h
    rw [(checkedNextPowerOfTwo_eq_some hnext).1] at hcols
    exact ⟨hrows, hcols⟩
  · intro h
    obtain ⟨hrows, hcols⟩ := h
    have hwidth := d.cols.property.2
    have hle : n ≤ d.width := (le_nextPowerOfTwo n).trans (hcols ▸ le_max_left ..)
    exact ⟨_, checkedNextPowerOfTwo_of_le (hle.trans (hwidth.le.trans (by decide))), hrows, hcols⟩

/-- A row or more is full rows, of which the number is a power of two: no operation saturates in a call that
returns dimensions. -/
theorem getBlockDims_eq_ok_wide (hn : maxWidth ≤ n) :
    getBlockDims n minWidth maxWidth maxHeight = .ok d ↔
      d.width = maxWidth ∧ d.height = nextPowerOfTwo ((n + maxWidth - 1) / maxWidth) ∧ d.height ≤ maxHeight := by
  rw [getBlockDims, if_neg (not_lt.mpr hn)]
  simp only [Except.bind_eq_ok, Run.okOr_eq_ok, Run.ensure_eq_ok, decide_eq_true_eq, Dimensions.newFrom_eq_some,
    NonZeroU16.tryFrom_eq_some]
  constructor
  · intro h
    obtain ⟨width, rfl, height, hnext, -, hheight, hrows, hcols⟩ := h
    have hpow := (checkedNextPowerOfTwo_eq_some hnext).1
    have hlt : roundUpToMultiple n width / width.val < 2 ^ 16 := by
      have hle := le_nextPowerOfTwo (roundUpToMultiple n width / width.val)
      rw [← hpow, ← hrows] at hle
      exact hle.trans_lt d.rows.property.2
    rw [roundUpToMultiple_div_eq (add_le_of_roundUpToMultiple_lt hlt)] at hpow
    exact ⟨hcols, hrows.trans hpow, hrows.trans_le hheight⟩
  · intro h
    obtain ⟨rfl, hheight, hle⟩ := h
    have hlt : (n + d.width - 1) / d.width < 2 ^ 16 :=
      ((le_nextPowerOfTwo _).trans_eq hheight.symm).trans_lt d.rows.property.2
    have hsum : n + d.width ≤ usizeLimit := by
      have hmul := (Nat.div_lt_iff_lt_mul d.width_pos).mp hlt
      have hwidth : d.width < 2 ^ 16 := d.cols.property.2
      have hlimit : usizeLimit = 2 ^ 64 := rfl
      omega
    have hceil : roundUpToMultiple n d.cols / d.width = (n + d.width - 1) / d.width := roundUpToMultiple_div_eq hsum
    refine ⟨d.cols, rfl, d.height, ?_, (), hle, rfl, rfl⟩
    rw [hceil, hheight]
    exact checkedNextPowerOfTwo_of_le (hlt.le.trans (by decide))

/-- What dimensions for `n` scalars are: there is room for all of them, in as few rows as there can be. -/
structure FitsBlock (n minWidth maxWidth maxHeight : ℕ) (d : Dimensions) : Prop where
  room : n ≤ d.size
  height : ∃ k, d.height = 2 ^ k
  height_le : d.height ≤ max 1 maxHeight
  minimal : d.height = 1 ∨ d.height / 2 * d.width < n
  width : ∀ i j, minWidth = 2 ^ i → maxWidth = 2 ^ j → minWidth ≤ maxWidth →
    (∃ k, d.width = 2 ^ k) ∧ minWidth ≤ d.width ∧ d.width ≤ maxWidth

theorem fitsBlock_narrow (hn : n < maxWidth) (hheight : d.height = 1)
    (hwidth : d.width = max (nextPowerOfTwo n) minWidth) : FitsBlock n minWidth maxWidth maxHeight d where
  room := by
    have hle : n ≤ d.width := (le_nextPowerOfTwo n).trans (hwidth ▸ le_max_left ..)
    exact hle.trans_eq ((Nat.one_mul _).symm.trans (congrArg (· * d.width) hheight.symm))
  height := ⟨0, hheight⟩
  height_le := hheight.trans_le (le_max_left ..)
  minimal := Or.inl hheight
  width := by
    rintro i j rfl rfl hle
    refine ⟨?_, hwidth ▸ le_max_right .., hwidth.trans_le (max_le (nextPowerOfTwo_le_iff.mpr hn.le) hle)⟩
    rcases max_choice (nextPowerOfTwo n) (2 ^ i) with hmax | hmax
    · exact ⟨_, hwidth.trans hmax⟩
    · exact ⟨i, hwidth.trans hmax⟩

/-- Half of a power of two that is the next one is too few. -/
theorem half_nextPowerOfTwo_lt {q : ℕ} (hq : nextPowerOfTwo q ≠ 1) : nextPowerOfTwo q / 2 < q := by
  obtain ⟨k, hk⟩ : ∃ k, Nat.clog 2 q = k + 1 := by
    apply Nat.exists_eq_succ_of_ne_zero
    intro hzero
    rw [nextPowerOfTwo, hzero] at hq
    exact hq rfl
  have hpow : nextPowerOfTwo q = 2 ^ k * 2 := by rw [nextPowerOfTwo, hk, pow_succ]
  rw [hpow, Nat.mul_div_cancel _ Nat.two_pos]
  by_contra hle
  have hnext := nextPowerOfTwo_le_iff.mpr (not_lt.mp hle)
  have hpos := Nat.two_pow_pos k
  omega

theorem fitsBlock_wide (hwidth : d.width = maxWidth)
    (hheight : d.height = nextPowerOfTwo ((n + maxWidth - 1) / maxWidth)) (hle : d.height ≤ maxHeight) :
    FitsBlock n minWidth maxWidth maxHeight d := by
  have hpos : 0 < maxWidth := hwidth ▸ d.width_pos
  have hdiv := Nat.div_add_mod (n + maxWidth - 1) maxWidth
  have hmod := Nat.mod_lt (n + maxWidth - 1) hpos
  rw [Nat.mul_comm] at hdiv
  refine ⟨?_, ⟨_, hheight⟩, hle.trans (le_max_right ..), ?_, ?_⟩
  · have hroom := Nat.mul_le_mul_right maxWidth (le_nextPowerOfTwo ((n + maxWidth - 1) / maxWidth))
    have hsize : d.size = nextPowerOfTwo ((n + maxWidth - 1) / maxWidth) * maxWidth := by
      rw [← hheight, ← hwidth]
      rfl
    omega
  · rcases eq_or_ne d.height 1 with hone | hmore
    · exact Or.inl hone
    · have hhalf := half_nextPowerOfTwo_lt (hheight ▸ hmore)
      have hmul := Nat.mul_le_mul_right maxWidth (Nat.succ_le_of_lt hhalf)
      rw [Nat.succ_mul] at hmul
      right
      rw [hheight, hwidth]
      omega
  · intro i j hi hj hmin
    exact ⟨⟨j, hwidth.trans hj⟩, hmin.trans_eq hwidth.symm, hwidth.le⟩

/-- **The dimensions hold every scalar**, also where a `usize` saturates. -/
theorem getBlockDims_fits (h : getBlockDims n minWidth maxWidth maxHeight = .ok d) :
    FitsBlock n minWidth maxWidth maxHeight d := by
  rcases Nat.lt_or_ge n maxWidth with hn | hn
  · obtain ⟨hheight, hwidth⟩ := (getBlockDims_eq_ok_narrow hn).mp h
    exact fitsBlock_narrow hn hheight hwidth
  · obtain ⟨hwidth, hheight, hle⟩ := (getBlockDims_eq_ok_wide hn).mp h
    exact fitsBlock_wide hwidth hheight hle

theorem returns_getBlockDims : Run.Returns (getBlockDims n minWidth maxWidth maxHeight) := by
  unfold getBlockDims
  split_ifs <;> simp [Run.returns_bind]

/-- The call fails when it needs more rows than there may be. -/
theorem getBlockDims_fails_iff (hpos : 0 < maxWidth) (hwidth : maxWidth < 2 ^ 16) (hn : maxWidth ≤ n) :
    (∃ e, getBlockDims n minWidth maxWidth maxHeight = Run.fail e) ↔
      maxHeight < nextPowerOfTwo ((n + maxWidth - 1) / maxWidth) ∨
        2 ^ 16 ≤ nextPowerOfTwo ((n + maxWidth - 1) / maxWidth) := by
  constructor
  · intro h
    obtain ⟨e, he⟩ := h
    by_contra hfits
    obtain ⟨hle, hlt⟩ := not_or.mp hfits
    have hok : getBlockDims n minWidth maxWidth maxHeight =
        .ok ⟨⟨_, nextPowerOfTwo_pos _, not_le.mp hlt⟩, ⟨maxWidth, hpos, hwidth⟩⟩ :=
      (getBlockDims_eq_ok_wide hn).mpr ⟨rfl, rfl, not_lt.mp hle⟩
    rw [he] at hok
    cases hok
  · intro hmore
    apply returns_getBlockDims.exists_fail
    intro d hd
    obtain ⟨-, hheight, hle⟩ := (getBlockDims_eq_ok_wide hn).mp hd
    have hlt : d.height < 2 ^ 16 := d.rows.property.2
    omega

end GetBlockDims

/-! ### One shape -/

/-- The rows and columns of a block of `n` chunks: a row that is a power of two, or whole rows, of which the
number is one. -/
def blockShape (maxCols n : ℕ) : ℕ × ℕ :=
  if n < maxCols then (1, max (nextPowerOfTwo n) 4) else (nextPowerOfTwo ((n + maxCols - 1) / maxCols), maxCols)

section BlockShape

variable {maxRows maxCols n : ℕ} {r c : ℕ} (hrows : maxRows = 2 ^ r) (hcols : maxCols = 2 ^ c) (hmin : 4 ≤ maxCols)

include hcols hmin in
theorem blockShape_snd_le : (blockShape maxCols n).2 ≤ maxCols := by
  unfold blockShape
  split_ifs with hn
  · refine max_le ?_ hmin
    rw [hcols] at hn ⊢
    exact nextPowerOfTwo_le_iff.mpr hn.le
  · exact le_rfl

include hrows hcols in
theorem blockShape_fst_le (h : n ≤ maxRows * maxCols) : (blockShape maxCols n).1 ≤ maxRows := by
  have hpos : 0 < maxCols := hcols ▸ Nat.two_pow_pos c
  unfold blockShape
  split_ifs
  · exact hrows ▸ Nat.two_pow_pos r
  · rw [hrows] at h ⊢
    refine nextPowerOfTwo_le_iff.mpr (Nat.le_of_lt_succ ?_)
    rw [Nat.div_lt_iff_lt_mul hpos, Nat.succ_mul]
    omega

/-- As many rows as the number of chunks needs. -/
theorem ceil_le_of_nextPowerOfTwo_le (hpos : 0 < maxCols)
    (h : nextPowerOfTwo ((n + maxCols - 1) / maxCols) ≤ maxRows) : n ≤ maxRows * maxCols := by
  have hq := (le_nextPowerOfTwo _).trans h
  have hlt := (Nat.div_lt_iff_lt_mul hpos).mp (Nat.lt_succ_of_le hq)
  rw [Nat.succ_mul] at hlt
  omega

/-- There is room for the chunks. -/
theorem le_blockShape (hpos : 0 < maxCols) : n ≤ (blockShape maxCols n).1 * (blockShape maxCols n).2 := by
  unfold blockShape
  split_ifs
  · rw [Nat.one_mul]
    exact (le_nextPowerOfTwo n).trans (le_max_left ..)
  · exact ceil_le_of_nextPowerOfTwo_le hpos le_rfl

include hmin in
theorem blockShape_fst_pos : 0 < (blockShape maxCols n).1 ∧ 0 < (blockShape maxCols n).2 := by
  unfold blockShape
  split_ifs
  · exact ⟨Nat.one_pos, lt_of_lt_of_le (by decide) (le_max_right ..)⟩
  · exact ⟨nextPowerOfTwo_pos _, by omega⟩

/-- A block that is full has all the rows. -/
theorem blockShape_full (hrows : maxRows = 2 ^ r) (hpos : 0 < maxCols) :
    blockShape maxCols (maxRows * maxCols) = (maxRows, maxCols) := by
  have hle : maxCols ≤ maxRows * maxCols := Nat.le_mul_of_pos_left _ (hrows ▸ Nat.two_pow_pos r)
  rw [blockShape, if_neg (not_lt.mpr hle), Chunks.mul_add_sub_one_div hpos, hrows, nextPowerOfTwo_two_pow]

/-- The shape, from the number of cells rounded up. -/
theorem blockShape_eq (hcols : maxCols = 2 ^ c) (hmin : 4 ≤ maxCols) :
    blockShape maxCols n = if maxCols < max (nextPowerOfTwo n) 4
      then (max (nextPowerOfTwo n) 4 / maxCols, maxCols) else (1, max (nextPowerOfTwo n) 4) := by
  have hpos : 0 < maxCols := hcols ▸ Nat.two_pow_pos c
  by_cases hn : n < maxCols
  · have hle : nextPowerOfTwo n ≤ maxCols := by
      rw [hcols] at hn ⊢
      exact nextPowerOfTwo_le_iff.mpr hn.le
    rw [blockShape, if_pos hn, if_neg (not_lt.mpr (max_le hle hmin))]
  · have hle := not_lt.mp hn
    have hmax : max (nextPowerOfTwo n) 4 = nextPowerOfTwo n := max_eq_left (hmin.trans (hle.trans (le_nextPowerOfTwo n)))
    have hmul := two_pow_mul_nextPowerOfTwo_div (hcols ▸ hle)
    rw [← hcols] at hmul
    rw [blockShape, if_neg hn, hmax]
    split_ifs with hlt
    · rw [← hmul, Nat.mul_div_cancel_left _ hpos]
    · have heq : n = maxCols := le_antisymm ((le_nextPowerOfTwo n).trans (not_lt.mp hlt)) hle
      have hone : (n + maxCols - 1) / maxCols = 1 := Nat.div_eq_of_lt_le (by omega) (by omega)
      have hnext : nextPowerOfTwo 1 = 1 := nextPowerOfTwo_two_pow 0
      rw [hone, hnext, heq, hcols, nextPowerOfTwo_two_pow]

end BlockShape

section OneShape

variable {maxRows maxCols n : ℕ} {r c : ℕ} (hrows : maxRows = 2 ^ r) (hcols : maxCols = 2 ^ c) (hmin : 4 ≤ maxCols)
include hrows hcols hmin

/-- **By scalars**, a block that fits has this shape. -/
theorem getBlockDims_eq_ok_iff {d : Dimensions} :
    getBlockDims n 4 maxCols maxRows = .ok d ↔
      n ≤ maxRows * maxCols ∧ (d.height, d.width) = blockShape maxCols n := by
  have hpos : 0 < maxCols := by omega
  rcases Nat.lt_or_ge n maxCols with hlt | hge
  · have hfits : n ≤ maxRows * maxCols := hlt.le.trans (Nat.le_mul_of_pos_left _ (hrows ▸ Nat.two_pow_pos r))
    rw [getBlockDims_eq_ok_narrow hlt, blockShape, if_pos hlt, Prod.mk.injEq]
    exact (and_iff_right hfits).symm
  · rw [getBlockDims_eq_ok_wide hge, blockShape, if_neg (not_lt.mpr hge), Prod.mk.injEq]
    constructor
    · intro h
      obtain ⟨hwidth, hheight, hle⟩ := h
      exact ⟨ceil_le_of_nextPowerOfTwo_le hpos (hheight ▸ hle), hheight, hwidth⟩
    · intro h
      obtain ⟨hfits, hheight, hwidth⟩ := h
      have hle := blockShape_fst_le hrows hcols hfits
      rw [blockShape, if_neg (not_lt.mpr hge)] at hle
      exact ⟨hwidth, hheight, hheight.trans_le hle⟩

end OneShape

/-! ### Limits -/

/-- The cells for so many bytes: those of the next power of two, or of the minimum size. -/
def cellsOfSize (blockSize : ℕ) : ℕ := (max (nextPowerOfTwo blockSize) minimumBlockSize + 31) / 32

/-- The number of cells is a power of two, and four at least. -/
theorem cellsOfSize_eq_two_pow (blockSize : ℕ) :
    cellsOfSize blockSize = 2 ^ max (Nat.clog 2 blockSize - 5) 2 := by
  rw [cellsOfSize, nextPowerOfTwo, minimumBlockSize]
  rcases Nat.lt_or_ge (Nat.clog 2 blockSize) 7 with hlt | hge
  · have hle : 2 ^ Nat.clog 2 blockSize ≤ 128 := Nat.pow_le_pow_right Nat.two_pos hlt.le
    have hexp : max (Nat.clog 2 blockSize - 5) 2 = 2 := max_eq_right (by omega)
    rw [max_eq_right hle, hexp]
    rfl
  · obtain ⟨k, hk⟩ := Nat.exists_eq_add_of_le hge
    have hexp : max (7 + k - 5) 2 = 2 + k := by omega
    have hpos := Nat.two_pow_pos k
    rw [hk, hexp, pow_add, pow_add, max_eq_left (by omega)]
    omega

/-- The cells of whole chunks. -/
theorem cellsOfSize_mul (n : ℕ) : cellsOfSize (n * 32) = max (nextPowerOfTwo n) 4 := by
  have hmin : minimumBlockSize = 32 * 4 := rfl
  rw [cellsOfSize, hmin]
  rcases Nat.eq_zero_or_pos n with rfl | hpos
  · rfl
  · have hnext := nextPowerOfTwo_two_pow_mul 5 hpos
    rw [show 2 ^ 5 = 32 from rfl, Nat.mul_comm] at hnext
    rw [hnext, Nat.mul_max_mul_left]
    omega

theorem le_cellsOfSize (blockSize : ℕ) : blockSize ≤ cellsOfSize blockSize * 32 := by
  have hle := (le_nextPowerOfTwo blockSize).trans (le_max_left _ minimumBlockSize)
  rw [cellsOfSize]
  omega

/-- Cells of a size that a power of two holds are held, if there are four in it. -/
theorem cellsOfSize_le_iff {blockSize k : ℕ} (h : blockSize ≤ 2 ^ k * 32) : cellsOfSize blockSize ≤ 2 ^ k ↔ 2 ≤ k := by
  have hclog : Nat.clog 2 blockSize ≤ k + 5 := Nat.clog_le_of_le_pow (by rwa [pow_add])
  rw [cellsOfSize_eq_two_pow, Nat.pow_le_pow_iff_right (by decide), max_le_iff]
  omega

/-- The size is rounded up and its cells are counted without overflow. -/
theorem cells_of_blockSize (blockSize : UInt32) : cellsOfSize blockSize.toNat < 2 ^ 32 ∧
    checkedNextPowerOfTwo blockSize.toNat = some (nextPowerOfTwo blockSize.toNat) ∧
    usizeCheckedAdd (max (nextPowerOfTwo blockSize.toNat) minimumBlockSize) (32 - 1) =
      some (max (nextPowerOfTwo blockSize.toNat) minimumBlockSize + 31) ∧
    u32TryFrom ((max (nextPowerOfTwo blockSize.toNat) minimumBlockSize + 31) / 32) =
      some (UInt32.ofNat (cellsOfSize blockSize.toNat)) := by
  have hle := blockSize.toNat_lt.le
  have hmax : max (nextPowerOfTwo blockSize.toNat) minimumBlockSize ≤ 2 ^ 32 :=
    max_le (nextPowerOfTwo_le_iff.mpr hle) (by decide)
  have hcells : cellsOfSize blockSize.toNat < 2 ^ 32 := by
    rw [cellsOfSize]
    omega
  refine ⟨hcells, checkedNextPowerOfTwo_of_le (hle.trans (by decide)), ?_, if_pos hcells⟩
  exact if_pos (lt_of_le_of_lt (Nat.add_le_add_right hmax 31) (by decide))

/-- There are dimensions for what the limits can hold, and they are within the limits and hold it. -/
structure ObeysLimits (blockSize maxRows maxCols : UInt32) : Prop where
  ok_iff : (∃ d, getBlockDimensions false 32 blockSize maxRows maxCols = .ok d) ↔
    maxRows.toNat * maxCols.toNat * 32 < 2 ^ 32 ∧ blockSize.toNat ≤ maxRows.toNat * maxCols.toNat * 32
  within : ∀ d, getBlockDimensions false 32 blockSize maxRows maxCols = .ok d →
    (∃ i, d.rows.toNat = 2 ^ i) ∧ (∃ j, d.cols.toNat = 2 ^ j) ∧ d.rows ≤ maxRows ∧ d.cols ≤ maxCols ∧
      d.size = d.rows.toNat * d.cols.toNat * 32 ∧ blockSize.toNat ≤ d.size

section Limits

variable {maxRows maxCols blockSize : UInt32} {r c : ℕ} (hrows : maxRows.toNat = 2 ^ r) (hcols : maxCols.toNat = 2 ^ c)
include hrows hcols

/-- What is returned under limits that are powers of two: the limits themselves for a full block, and else as many
columns as there may be. -/
theorem getBlockDimensions_shape {d : BlockDimensions} :
    getBlockDimensions false 32 blockSize maxRows maxCols = .ok d ↔
      maxRows.toNat * maxCols.toNat * 32 < 2 ^ 32 ∧ blockSize.toNat ≤ maxRows.toNat * maxCols.toNat * 32 ∧
        (d.rows.toNat, d.cols.toNat) = (if blockSize.toNat = maxRows.toNat * maxCols.toNat * 32
          then (maxRows.toNat, maxCols.toNat) else if maxCols.toNat < cellsOfSize blockSize.toNat
          then (cellsOfSize blockSize.toNat / maxCols.toNat, maxCols.toNat) else (1, cellsOfSize blockSize.toNat)) ∧
        d.chunkSize = 32 := by
  have hrowsPow : isPowerOfTwo maxRows.toNat = true := by
    rw [hrows, isPowerOfTwo_two_pow]
  have hcolsPow : isPowerOfTwo maxCols.toNat = true := by
    rw [hcols, isPowerOfTwo_two_pow]
  have hchunk : 0 < (32 : UInt32).toNat := by decide
  have hnz : maxCols ≠ 0 := by
    rintro rfl
    exact absurd hcols (Nat.two_pow_pos c).ne
  simp only [getBlockDimensions, hrowsPow, hcolsPow, Run.ensure_true, Except.ok_bind]
  rw [show UInt32.ofNat 32 = 32 from rfl]
  cases hfull : BlockDimensions.new maxRows maxCols 32 with
  | none =>
    refine iff_of_false ?_ fun h => ?_
    · intro h
      cases h
    · have hsome := BlockDimensions.new_isSome hchunk h.1
      rw [hfull] at hsome
      cases hsome
  | some full =>
    obtain ⟨hfullRows, hfullCols, hfullChunk⟩ := BlockDimensions.shape_of_new hfull
    have hfullSize := BlockDimensions.size_of_chunkSize hfullChunk
    rw [hfullRows, hfullCols] at hfullSize
    have hfits : maxRows.toNat * maxCols.toNat * 32 < 2 ^ 32 := hfullSize ▸ full.size_lt
    simp only [Run.okOr_some, Except.ok_bind, Except.bind_eq_ok, Run.ensure_eq_ok, decide_eq_true_eq, hfullSize,
      Bool.false_eq_true, or_false, exists_const, if_neg hnz]
    rw [and_iff_right hfits]
    refine and_congr_right fun hle => ?_
    by_cases heq : blockSize.toNat = maxRows.toNat * maxCols.toNat * 32
    · rw [if_pos heq, if_pos heq, Except.pure_eq_ok, Except.ok.injEq, ← hfullRows, ← hfullCols, ← hfullChunk]
      constructor
      · rintro rfl
        exact ⟨rfl, rfl⟩
      · intro h
        rw [Prod.mk.injEq, UInt32.toNat_inj, UInt32.toNat_inj] at h
        exact BlockDimensions.eq_of_shape h.1.1.symm h.1.2.symm h.2.symm
    · obtain ⟨hcells, hchecked, hadd, htotal⟩ := cells_of_blockSize blockSize
      rw [if_neg heq, if_neg heq]
      simp only [hchecked, Option.getD_some, hadd, htotal, Run.okOr_some, Except.ok_bind, Run.okOr_eq_ok,
        BlockDimensions.new_eq_some_iff hchunk, UInt32.lt_iff_toNat_lt, toNat_ofNat_of_lt hcells]
      split_ifs
      · rw [Prod.mk.injEq, ← UInt32.toNat_inj, ← UInt32.toNat_inj, UInt32.toNat_div, toNat_ofNat_of_lt hcells, and_assoc]
      · rw [Prod.mk.injEq, ← UInt32.toNat_inj, ← UInt32.toNat_inj, toNat_ofNat_of_lt hcells, and_assoc]
        rfl

/-- The rows and the columns, and how many cells they make, unless the block is full. -/
theorem shape_of_getBlockDimensions {d : BlockDimensions}
    (h : getBlockDimensions false 32 blockSize maxRows maxCols = .ok d)
    (hpart : blockSize.toNat ≠ maxRows.toNat * maxCols.toNat * 32) :
    ∃ i j, d.rows.toNat = 2 ^ i ∧ d.cols.toNat = 2 ^ j ∧ j ≤ c ∧ (i = 0 ∨ j = c) ∧
      cellsOfSize blockSize.toNat = 2 ^ (i + j) := by
  obtain ⟨-, -, hshape, -⟩ := (getBlockDimensions_shape hrows hcols).mp h
  obtain ⟨t, ht⟩ : ∃ t, cellsOfSize blockSize.toNat = 2 ^ t := ⟨_, cellsOfSize_eq_two_pow _⟩
  rw [if_neg hpart, ht, hcols] at hshape
  split_ifs at hshape with hlt
  · have hexp : c < t := (Nat.pow_lt_pow_iff_right (by decide)).mp hlt
    rw [Nat.pow_div hexp.le Nat.two_pos, Prod.mk.injEq] at hshape
    exact ⟨t - c, c, hshape.1, hshape.2, le_rfl, Or.inr rfl, by rw [ht, Nat.sub_add_cancel hexp.le]⟩
  · have hexp : t ≤ c := (Nat.pow_le_pow_iff_right (by decide)).mp (not_lt.mp hlt)
    rw [Prod.mk.injEq] at hshape
    exact ⟨0, t, hshape.1, hshape.2, hexp, Or.inl rfl, by rw [ht, Nat.zero_add]⟩

/-- There are dimensions exactly when the limits are those of a block, and it holds the bytes. -/
theorem exists_getBlockDimensions_iff :
    (∃ d, getBlockDimensions false 32 blockSize maxRows maxCols = .ok d) ↔
      maxRows.toNat * maxCols.toNat * 32 < 2 ^ 32 ∧ blockSize.toNat ≤ maxRows.toNat * maxCols.toNat * 32 := by
  constructor
  · intro h
    obtain ⟨d, hd⟩ := h
    obtain ⟨hfits, hle, -⟩ := (getBlockDimensions_shape hrows hcols).mp hd
    exact ⟨hfits, hle⟩
  · intro h
    obtain ⟨hfits, hle⟩ := h
    rw [hrows, hcols, ← pow_add] at hfits hle
    have hexp : r + c < 27 := (Nat.pow_lt_pow_iff_right (by decide)).mp (Nat.lt_of_mul_lt_mul_right hfits)
    have hsmall : blockSize.toNat ≤ 2 ^ 26 * 32 :=
      hle.trans (Nat.mul_le_mul_right 32 (Nat.pow_le_pow_right Nat.two_pos (by omega)))
    have hcells := (cellsOfSize_le_iff hsmall).mpr (by decide)
    obtain ⟨t, ht⟩ : ∃ t, cellsOfSize blockSize.toNat = 2 ^ t := ⟨_, cellsOfSize_eq_two_pow _⟩
    simp only [getBlockDimensions_shape hrows hcols, hrows, hcols, ← pow_add, hfits, hle, ht, true_and]
    split_ifs with hfull hlt
    · apply BlockDimensions.exists_of_shape (Nat.two_pow_pos r) (Nat.two_pow_pos c)
      rwa [← pow_add]
    · have hct : c < t := (Nat.pow_lt_pow_iff_right (by decide)).mp hlt
      rw [Nat.pow_div hct.le Nat.two_pos]
      apply BlockDimensions.exists_of_shape (Nat.two_pow_pos _) (Nat.two_pow_pos c)
      rw [← pow_add, Nat.sub_add_cancel hct.le, ← ht]
      omega
    · apply BlockDimensions.exists_of_shape Nat.one_pos (Nat.two_pow_pos t)
      rw [Nat.one_mul, ← ht]
      omega

/-- Where four cells are within the limits, so is what is returned. -/
theorem within_limits (h : 4 ≤ maxRows.toNat * maxCols.toNat ∨ maxRows.toNat * maxCols.toNat * 32 ≤ blockSize.toNat)
    {d : BlockDimensions} (hd : getBlockDimensions false 32 blockSize maxRows maxCols = .ok d) :
    (∃ i, d.rows.toNat = 2 ^ i) ∧ (∃ j, d.cols.toNat = 2 ^ j) ∧ d.rows ≤ maxRows ∧ d.cols ≤ maxCols ∧
      d.size = d.rows.toNat * d.cols.toNat * 32 ∧ blockSize.toNat ≤ d.size := by
  obtain ⟨-, hle, hshape, hchunk⟩ := (getBlockDimensions_shape hrows hcols).mp hd
  have hsize := BlockDimensions.size_of_chunkSize hchunk
  rw [UInt32.le_iff_toNat_le, UInt32.le_iff_toNat_le, hsize]
  by_cases hfull : blockSize.toNat = maxRows.toNat * maxCols.toNat * 32
  · rw [if_pos hfull, Prod.mk.injEq] at hshape
    rw [hshape.1, hshape.2]
    exact ⟨⟨r, hrows⟩, ⟨c, hcols⟩, le_rfl, le_rfl, rfl, hle⟩
  · obtain ⟨i, j, hi, hj, hjc, hmax, hcells⟩ := shape_of_getBlockDimensions hrows hcols hd hfull
    have hroom := le_cellsOfSize blockSize.toNat
    have hfour : 2 ^ 2 ≤ maxRows.toNat * maxCols.toNat := by omega
    rw [hrows, hcols, ← pow_add] at hle hfour
    have hexp : i + j ≤ r + c := by
      have htwo : 2 ≤ r + c := (Nat.pow_le_pow_iff_right (by decide)).mp hfour
      have hcellsLe := (cellsOfSize_le_iff hle).mpr htwo
      rw [hcells] at hcellsLe
      exact (Nat.pow_le_pow_iff_right (by decide)).mp hcellsLe
    rw [hcells, pow_add] at hroom
    rw [hi, hj, hrows, hcols]
    exact ⟨⟨i, rfl⟩, ⟨j, rfl⟩, Nat.pow_le_pow_right Nat.two_pos (by omega),
      Nat.pow_le_pow_right Nat.two_pos hjc, rfl, hroom⟩

/-- **The limits are obeyed when they are those of four cells**, which the minimum size takes, or the block is as
large as they are. -/
theorem getBlockDimensions_limits_iff : ObeysLimits blockSize maxRows maxCols ↔
    4 ≤ maxRows.toNat * maxCols.toNat ∨ maxRows.toNat * maxCols.toNat * 32 ≤ blockSize.toNat := by
  constructor
  · intro h
    by_contra hnot
    obtain ⟨hfew, hpart⟩ := not_or.mp hnot
    obtain ⟨d, hd⟩ := h.ok_iff.mpr ⟨by omega, by omega⟩
    obtain ⟨i, j, hi, hj, -, -, hcells⟩ := shape_of_getBlockDimensions hrows hcols hd (by omega)
    obtain ⟨-, -, hrowsLe, hcolsLe, -⟩ := h.within d hd
    rw [UInt32.le_iff_toNat_le, hi, hrows, Nat.pow_le_pow_iff_right (by decide)] at hrowsLe
    rw [UInt32.le_iff_toNat_le, hj, hcols, Nat.pow_le_pow_iff_right (by decide)] at hcolsLe
    rw [hrows, hcols, ← pow_add] at hfew hpart
    have hcellsLe : cellsOfSize blockSize.toNat ≤ 2 ^ (r + c) := by
      rw [hcells, Nat.pow_le_pow_iff_right (by decide)]
      omega
    have htwo := (cellsOfSize_le_iff (not_le.mp hpart).le).mp hcellsLe
    exact hfew (Nat.pow_le_pow_right Nat.two_pos htwo)
  · intro h
    exact ⟨exists_getBlockDimensions_iff hrows hcols, fun d hd => within_limits hrows hcols h hd⟩

end Limits

theorem getBlockDimensions_limits_256 : ObeysLimits 300 256 256 :=
  (@getBlockDimensions_limits_iff 256 256 300 8 8 rfl rfl).mpr (Or.inl (by decide))

/-- In a block of one cell, nothing takes four rows. -/
theorem getBlockDimensions_past_limits :
    (∃ d, getBlockDimensions false 32 0 1 1 = .ok d ∧ d.rows.toNat = 4) ∧ ¬ ObeysLimits 0 1 1 := by
  have hcells : cellsOfSize (0 : UInt32).toNat = 4 := cellsOfSize_mul 0
  obtain ⟨d, hshape, hchunk⟩ := @BlockDimensions.exists_of_shape 4 1 (by decide) (by decide) (by decide)
  have hd : getBlockDimensions false 32 0 1 1 = .ok d := by
    rw [@getBlockDimensions_shape 1 1 0 0 0 rfl rfl, hcells]
    exact ⟨by decide, by decide, hshape, hchunk⟩
  rw [Prod.mk.injEq] at hshape
  refine ⟨⟨d, hd, hshape.1⟩, fun h => ?_⟩
  have hle := UInt32.le_iff_toNat_le.mp (h.within d hd).2.2.1
  rw [hshape.1] at hle
  exact absurd hle (by decide)

section ShapeOfBytes

variable {maxRows maxCols blockSize : UInt32} {n r c : ℕ} (hrows : maxRows.toNat = 2 ^ r) (hcols : maxCols.toNat = 2 ^ c)
  (hmin : 4 ≤ maxCols.toNat)
include hrows hcols hmin

/-- **By bytes**, a block of so many chunks has it too. -/
theorem getBlockDimensions_eq_ok_iff (hsize : maxRows.toNat * maxCols.toNat * 32 < 2 ^ 32)
    (hn : blockSize.toNat = n * 32) {d : BlockDimensions} :
    getBlockDimensions false 32 blockSize maxRows maxCols = .ok d ↔
      n ≤ maxRows.toNat * maxCols.toNat ∧ (d.rows.toNat, d.cols.toNat) = blockShape maxCols.toNat n ∧
        d.chunkSize = 32 := by
  have hpos : 0 < maxCols.toNat := by omega
  have hfits : n * 32 ≤ maxRows.toNat * maxCols.toNat * 32 ↔ n ≤ maxRows.toNat * maxCols.toNat :=
    ⟨fun h => Nat.le_of_mul_le_mul_right h (by decide), fun h => Nat.mul_le_mul_right 32 h⟩
  have hwhole : n * 32 = maxRows.toNat * maxCols.toNat * 32 ↔ n = maxRows.toNat * maxCols.toNat :=
    ⟨fun h => Nat.eq_of_mul_eq_mul_right (by decide) h, fun h => h ▸ rfl⟩
  rw [getBlockDimensions_shape hrows hcols, and_iff_right hsize, hn, hfits, cellsOfSize_mul]
  refine and_congr_right fun _ => ?_
  by_cases heq : n = maxRows.toNat * maxCols.toNat
  · rw [if_pos (hwhole.mpr heq), heq, blockShape_full hrows hpos]
  · rw [if_neg (mt hwhole.mp heq), blockShape_eq hcols hmin]

end ShapeOfBytes

end AvailCore
