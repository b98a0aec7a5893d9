import AvailCore.Kate.BuildProof
import AvailCore.Kate.PolynomialGrid

/-!
# Multiproofs

`PolynomialGrid::multiproof` of `kate/src/gridgen/core.rs`. A grid of cells is cut into
blocks of one size, and one proof made for the cells of a block: the polynomials of its
rows are opened at the points of its columns.

## What is proved

The blocks have one size, and tile the grid (`multiproofBlock_tiles`). Prover and verifier
agree: what `multiproof` returns, sent as bytes, `verify_multi_proof` accepts with the
commitments of the grid (`verifyMultiProof_multiproof`).
-/

namespace AvailCore

open Chunks AvailCore.Fourier

/-! ### Blocks -/

/-- `CellBlock` -/
structure CellBlock where
  startX : ℕ
  startY : ℕ
  endX : ℕ
  endY : ℕ
  deriving DecidableEq, Repr

/-- `multiproof_dims` -/
def multiproofDims (grid target : Dimensions) : Option Dimensions :=
  let cols := min grid.cols target.cols
  let rows := min grid.rows target.rows
  if grid.cols.val % cols.val ≠ 0 ∨ grid.rows.val % rows.val ≠ 0 then none else some ⟨rows, cols⟩

/-- `multiproof_block` -/
def multiproofBlock (x y : ℕ) (grid target : Dimensions) : Option CellBlock := do
  let mpGridDims ← multiproofDims grid target
  if mpGridDims.width ≤ x ∨ mpGridDims.height ≤ y then none
  else
    let blockWidth := grid.width / mpGridDims.cols.val
    let blockHeight := grid.height / mpGridDims.rows.val
    some ⟨x * blockWidth, y * blockHeight, (x + 1) * blockWidth, (y + 1) * blockHeight⟩

/-- The `x`-th of `k` parts of `n` is not empty, and lies in `n`. -/
theorem part_lt {n k x : ℕ} (hk : 0 < k) (hkn : k ≤ n) (hx : x < k) :
    x * (n / k) < (x + 1) * (n / k) ∧ (x + 1) * (n / k) ≤ n := by
  have hpos : 0 < n / k := Nat.div_pos hkn hk
  constructor
  · rw [Nat.succ_mul]
    omega
  · exact (Nat.mul_le_mul_right _ hx).trans (Nat.mul_div_le n k)

/-- A grid of blocks divides the grid of cells. -/
theorem multiproofDims_eq_some {grid target d : Dimensions} (h : multiproofDims grid target = some d) :
    d.width ∣ grid.width ∧ d.height ∣ grid.height := by
  simp only [multiproofDims] at h
  split_ifs at h with hdivides
  cases h
  rw [not_or, not_not, not_not] at hdivides
  exact ⟨Nat.dvd_of_mod_eq_zero hdivides.1, Nat.dvd_of_mod_eq_zero hdivides.2⟩

/-- The blocks of a grid of blocks. -/
theorem multiproofBlock_eq_some_iff {grid target d : Dimensions} (hd : multiproofDims grid target = some d) {x y : ℕ}
    {block : CellBlock} : multiproofBlock x y grid target = some block ↔ (x < d.width ∧ y < d.height) ∧
      block = ⟨x * (grid.width / d.width), y * (grid.height / d.height),
        (x + 1) * (grid.width / d.width), (y + 1) * (grid.height / d.height)⟩ := by
  rw [multiproofBlock, hd, Option.bind_eq_bind, Option.bind_some, ite_eq_iff]
  simp only [reduceCtorEq, and_false, false_or, not_or, not_le, Option.some.injEq, eq_comm (b := block)]
  rfl

/-- **A block is not empty, and lies in the grid.** -/
theorem multiproofBlock_eq_some {x y : ℕ} {grid target : Dimensions} {block : CellBlock}
    (h : multiproofBlock x y grid target = some block) :
    block.startX < block.endX ∧ block.endX ≤ grid.width ∧ block.startY < block.endY ∧ block.endY ≤ grid.height := by
  obtain ⟨d, hd, -⟩ := Option.bind_eq_some_iff.mp h
  obtain ⟨hwidth, hheight⟩ := multiproofDims_eq_some hd
  obtain ⟨⟨hx, hy⟩, rfl⟩ := (multiproofBlock_eq_some_iff hd).mp h
  obtain ⟨hstartX, hendX⟩ := part_lt d.width_pos (Nat.le_of_dvd grid.width_pos hwidth) hx
  obtain ⟨hstartY, hendY⟩ := part_lt d.height_pos (Nat.le_of_dvd grid.height_pos hheight) hy
  exact ⟨hstartX, hendX, hstartY, hendY⟩

/-- Each of `n` is in the part its quotient says, and in no other. -/
theorem part_contains_iff {n k x i : ℕ} (hk : 0 < k) (hkn : k ≤ n) :
    (x * (n / k) ≤ i ∧ i < (x + 1) * (n / k)) ↔ i / (n / k) = x := by
  have hpos : 0 < n / k := Nat.div_pos hkn hk
  rw [Nat.div_eq_iff hpos, Nat.succ_mul]
  omega

/-- The quotient says one of the parts, as they have the same size. -/
theorem div_part_lt {n k i : ℕ} (hdvd : k ∣ n) (hi : i < n) : i / (n / k) < k := by
  rw [Nat.div_lt_iff_lt_mul (Nat.div_pos (Nat.le_of_dvd (by omega) hdvd) (Nat.pos_of_dvd_of_pos hdvd (by omega)))]
  rwa [Nat.mul_div_cancel' hdvd]

/-- A cell of the grid is one of the block. -/
def CellBlock.Contains (block : CellBlock) (row col : ℕ) : Prop :=
  (block.startX ≤ col ∧ col < block.endX) ∧ block.startY ≤ row ∧ row < block.endY

/-- The blocks of `d.width` by `d.height` tile the grid. -/
structure TilesGrid (grid target d : Dimensions) : Prop where
  isSome_iff : ∀ x y, (multiproofBlock x y grid target).isSome ↔ x < d.width ∧ y < d.height
  sameSize : ∃ width height, 0 < width ∧ 0 < height ∧ ∀ x y block, multiproofBlock x y grid target = some block →
    block.endX = block.startX + width ∧ block.endY = block.startY + height
  inside : ∀ x y block, multiproofBlock x y grid target = some block →
    block.endX ≤ grid.width ∧ block.endY ≤ grid.height
  covers : ∀ row col, row < grid.height → col < grid.width →
    ∃! p : ℕ × ℕ, ∃ block, multiproofBlock p.1 p.2 grid target = some block ∧ block.Contains row col

/-- A cell is in the block of its quotients, and in no other. -/
theorem exists_contains_iff {grid target d : Dimensions} (hd : multiproofDims grid target = some d) {x y row col : ℕ} :
    (∃ block, multiproofBlock x y grid target = some block ∧ block.Contains row col) ↔
      (x < d.width ∧ y < d.height) ∧ col / (grid.width / d.width) = x ∧ row / (grid.height / d.height) = y := by
  obtain ⟨hwidth, hheight⟩ := multiproofDims_eq_some hd
  rw [← part_contains_iff d.width_pos (Nat.le_of_dvd grid.width_pos hwidth),
    ← part_contains_iff d.height_pos (Nat.le_of_dvd grid.height_pos hheight)]
  simp [multiproofBlock_eq_some_iff hd, CellBlock.Contains, and_assoc]

/-- **The blocks tile the grid, when there are blocks.** -/
theorem multiproofBlock_tiles (grid target : Dimensions) :
    (∀ d, multiproofDims grid target = some d → TilesGrid grid target d) ∧
    (multiproofDims grid target = none → ∀ x y, multiproofBlock x y grid target = none) := by
  constructor
  · intro d hd
    obtain ⟨hwidth, hheight⟩ := multiproofDims_eq_some hd
    have hwidthLe := Nat.le_of_dvd grid.width_pos hwidth
    have hheightLe := Nat.le_of_dvd grid.height_pos hheight
    refine ⟨fun x y => ?_, ?_, fun x y block h => ?_, fun row col hrow hcol => ?_⟩
    · rw [Option.isSome_iff_exists]
      simp only [multiproofBlock_eq_some_iff hd, exists_and_left, exists_eq, and_true]
    · refine ⟨grid.width / d.width, grid.height / d.height, Nat.div_pos hwidthLe d.width_pos,
        Nat.div_pos hheightLe d.height_pos, fun x y block h => ?_⟩
      obtain ⟨-, rfl⟩ := (multiproofBlock_eq_some_iff hd).mp h
      exact ⟨Nat.succ_mul .., Nat.succ_mul ..⟩
    · obtain ⟨-, hendX, -, hendY⟩ := multiproofBlock_eq_some h
      exact ⟨hendX, hendY⟩
    · refine ⟨(col / (grid.width / d.width), row / (grid.height / d.height)), ?_, fun p hp => ?_⟩
      · apply (exists_contains_iff hd).mpr
        exact ⟨⟨div_part_lt hwidth hcol, div_part_lt hheight hrow⟩, rfl, rfl⟩
      · obtain ⟨-, hx, hy⟩ := (exists_contains_iff hd).mp hp
        exact Prod.ext hx.symm hy.symm
  · intro hnone x y
    rw [multiproofBlock, hnone]
    rfl

example : multiproofDims ⟨⟨256, by decide⟩, ⟨256, by decide⟩⟩ ⟨⟨16, by decide⟩, ⟨64, by decide⟩⟩ =
    some ⟨⟨16, by decide⟩, ⟨64, by decide⟩⟩ := by decide

/-! ### The proof of a block -/

/-- `Multiproof` -/
structure Multiproof (P : Type) where
  proof : P
  evals : List (List ArkScalar)
  block : CellBlock

section Multiproofs

variable {C P : Type} (S : MultiScheme C P)

/-- `PolynomialGrid::multiproof` -/
def PolynomialGrid.multiproof (p : PolynomialGrid) (cell : Cell) (evalGrid : EvaluationGrid) (targetDims : Dimensions) :
    Run KateError (Multiproof P) := do
  let block ← Run.okOr .cellLengthExceeded (multiproofBlock cell.col.toNat cell.row.toNat p.dims targetDims)
  let polys ← Run.slice p.inner block.startY block.endY
  let evals ← (List.range' block.startY (block.endY - block.startY)).mapM fun y => do
    let row ← Run.unwrap (evalGrid.row y)
    Run.slice row block.startX block.endX
  let points ← Run.slice p.points block.startX block.endX
  let proof ← Run.okOr .multiproofError (S.openMulti availMp evals polys points)
  return ⟨proof, evals, block⟩

/-- The corners of a block, as they are sent. -/
def CellBlock.gcellBlock (block : CellBlock) : GCellBlock :=
  ⟨UInt32.ofNat block.startX, UInt32.ofNat block.startY, UInt32.ofNat block.endX, UInt32.ofNat block.endY⟩

/-- A slice of the numbers below `n`. -/
theorem take_drop_range {n i k : ℕ} (h : i + k ≤ n) : ((List.range n).drop i).take k = List.range' i k := by
  refine List.ext_getElem (by simp; omega) fun j hj hj' => ?_
  simp

variable {S} {A : Ark} {g : EvaluationGrid} {p : PolynomialGrid} {cell : Cell} {targetDims : Dimensions}
  {m : Multiproof P}

/-- What is opened: the polynomials of the rows of the block, at the points of its columns, where they
have the values of its cells. -/
structure Opens (S : MultiScheme C P) (p : PolynomialGrid) (m : Multiproof P) : Prop where
  columns : m.block.startX < m.block.endX
  endX_le : m.block.endX ≤ p.dims.width
  rows : m.block.startY < m.block.endY
  endY_le : m.block.endY ≤ p.dims.height
  opened : S.openMulti availMp m.evals ((p.inner.drop m.block.startY).take (m.block.endY - m.block.startY))
    ((p.points.drop m.block.startX).take (m.block.endX - m.block.startX)) = some m.proof
  length_row : ∀ row ∈ m.evals, row.length = m.block.endX - m.block.startX
  values : List.Forall₂ (fun poly row => row = ((p.points.drop m.block.startX).take (m.block.endX - m.block.startX)).map
    fun x => (toPoly poly).eval x) ((p.inner.drop m.block.startY).take (m.block.endY - m.block.startY)) m.evals

theorem opens_of_multiproof (hp : g.makePolynomialGrid A = .ok p) (hcols : isPowerOfTwo g.dims.width = true)
    (hm : p.multiproof S cell g targetDims = .ok m) : Opens S p m := by
  obtain ⟨domain, hdomain, rfl⟩ := EvaluationGrid.makePolynomialGrid_eq_ok.mp hp
  have hsize : domain.size = g.dims.width := A.size_newDomain_eq hdomain hcols
  simp only [PolynomialGrid.multiproof, Except.bind_eq_ok, Run.okOr_eq_ok, Except.pure_eq_ok, Except.ok.injEq,
    Run.slice_eq_ok_iff] at hm
  obtain ⟨block, hblock, _, ⟨-, -, rfl⟩, evals, hevals, _, ⟨-, -, rfl⟩, proof, hproof, rfl⟩ := hm
  obtain ⟨hx, hx', hy, hy'⟩ := multiproofBlock_eq_some hblock
  -- the rows of the block, one by one
  have hrow : ∀ y row, (∃ gridRow, g.row y = some gridRow ∧ block.startX ≤ block.endX ∧ block.endX ≤ gridRow.length ∧
      row = (gridRow.drop block.startX).take (block.endX - block.startX)) →
      row.length = block.endX - block.startX ∧
        row = ((domain.elements.drop block.startX).take (block.endX - block.startX)).map fun x =>
          (toPoly (A.ifft domain (g.evals.row y))).eval x := by
    intro y row h
    obtain ⟨gridRow, hgridRow, -, hlen, rfl⟩ := h
    unfold EvaluationGrid.row at hgridRow
    split_ifs at hgridRow with hlt
    cases hgridRow
    have hrow : (g.evals.row y).length = domain.size := by rw [g.evals.length_row hlt, hsize]
    have hvalues := A.map_eval_elements hdomain hrow
    constructor
    · rw [List.length_take_of_le]
      rw [List.length_drop]
      omega
    · rw [List.map_take, List.map_drop, hvalues]
  have hall := (Except.mapM_ok_iff.mp hevals).imp fun y row h =>
    hrow y row (by simpa only [Except.bind_eq_ok, Run.unwrap_eq_ok, Run.slice_eq_ok_iff] using h)
  have hpolys : (((List.range g.dims.height).map fun y => A.ifft domain (g.evals.row y)).drop block.startY).take
      (block.endY - block.startY) =
        (List.range' block.startY (block.endY - block.startY)).map fun y => A.ifft domain (g.evals.row y) := by
    rw [← List.map_drop, ← List.map_take, take_drop_range (by omega)]
  refine ⟨hx, hx', hy, hy', hproof, ?_, ?_⟩
  · intro row hmem
    obtain ⟨y, -, hlen, -⟩ := Except.exists_of_mem_forall₂ hall hmem
    exact hlen
  · rw [hpolys, List.forall₂_map_left_iff]
    exact hall.imp fun y row h => h.2

/-- A block is proved when its rows can be opened at its points. -/
theorem exists_multiproof (hp : g.makePolynomialGrid A = .ok p) {block : CellBlock}
    (hblock : multiproofBlock cell.col.toNat cell.row.toNat p.dims targetDims = some block)
    (hopen : ∀ evals polys, (S.openMulti availMp evals polys
      ((p.points.drop block.startX).take (block.endX - block.startX))).isSome) :
    ∃ m, p.multiproof S cell g targetDims = .ok m ∧ m.block = block := by
  obtain ⟨domain, hdomain, rfl⟩ := EvaluationGrid.makePolynomialGrid_eq_ok.mp hp
  obtain ⟨hx, hx', hy, hy'⟩ := multiproofBlock_eq_some hblock
  have hpolys := @Run.slice_eq_ok KateError _ ((List.range g.dims.height).map fun y => A.ifft domain (g.evals.row y))
    block.startY block.endY hy.le (by rwa [List.length_map, List.length_range])
  have hpoints := @Run.slice_eq_ok KateError _ domain.elements block.startX block.endX hx.le (by
    rw [domain.length_elements, A.size_newDomain hdomain]
    exact hx'.trans (le_nextPowerOfTwo _))
  have hrows : ∀ y ∈ List.range' block.startY (block.endY - block.startY), ∃ row, (do
      let row ← Run.unwrap (g.row y)
      Run.slice row block.startX block.endX : Run KateError _) = .ok row := by
    intro y hrange
    have hlt : y < g.dims.height := by
      have hin := List.mem_range'_1.mp hrange
      have hle : block.endY ≤ g.dims.height := hy'
      omega
    rw [EvaluationGrid.row, if_pos hlt, Run.unwrap_some, Except.ok_bind]
    exact ⟨_, Run.slice_eq_ok hx.le (by rwa [g.evals.length_row hlt])⟩
  obtain ⟨evals, hevals⟩ := Except.exists_mapM hrows
  obtain ⟨proof, hproof⟩ := Option.isSome_iff_exists.mp
    (hopen evals ((((List.range g.dims.height).map fun y => A.ifft domain (g.evals.row y)).drop block.startY).take
      (block.endY - block.startY)))
  refine ⟨⟨proof, evals, block⟩, ?_, rfl⟩
  simp only [PolynomialGrid.multiproof, hblock, hpolys, hevals, hpoints, hproof, Run.okOr_some, Except.ok_bind,
    Except.pure_eq_ok]

end Multiproofs

/-- With 5 as the secret point, any polynomials can be opened at points of a domain. -/
theorem isSome_openMulti_five {n : ℕ} {domain : EvaluationDomain} (hdomain : bls12381.newDomain n = some domain)
    (label : List UInt8) (evals polys : List (List ArkScalar)) (i k : ℕ) :
    ((MultiScheme.atPoint 5).openMulti label evals polys ((domain.elements.drop i).take k)).isSome := by
  have hpoints : vanishingAt 5 ((domain.elements.drop i).take k) ≠ 0 :=
    vanishingAt_five hdomain fun x hx => List.mem_of_mem_drop (List.mem_of_mem_take hx)
  exact Option.isSome_of_eq_some (if_neg hpoints)

/-- The length of a range of `u32`s, in order. -/
theorem toNat_sub_ofNat {i j : ℕ} (hij : i ≤ j) (hj : j < 2 ^ 16) :
    (UInt32.ofNat i).toNat = i ∧ (UInt32.ofNat j).toNat = j ∧ UInt32.ofNat i ≤ UInt32.ofNat j ∧
      (UInt32.ofNat j - UInt32.ofNat i).toNat = j - i := by
  have hi : (UInt32.ofNat i).toNat = i := toNat_ofNat_of_lt (by omega)
  have hj' : (UInt32.ofNat j).toNat = j := toNat_ofNat_of_lt (by omega)
  have hle : UInt32.ofNat i ≤ UInt32.ofNat j := by
    rw [UInt32.le_iff_toNat_le, hi, hj']
    exact hij
  refine ⟨hi, hj', hle, ?_⟩
  rw [UInt32.toNat_sub_of_le _ _ hle, hi, hj']

/-- What is sent of a block is read as what is opened. -/
theorem Opens.readItem_eq {C P : Type} (b : Build) {A : Ark} {S : MultiScheme C P} {p : PolynomialGrid}
    {m : Multiproof P} (h : Opens S p m) (hpoints : p.points.length = p.dims.width) {commitments : List C}
    {commitmentsBytes : List (List UInt8)}
    (hcommitmentsBytes : List.Forall₂ (fun c bytes => S.toBytes c = some bytes) commitments commitmentsBytes)
    {evalsBytes : List Chunk}
    (hevalsBytes : List.Forall₂ (fun s bytes => A.toBytes s = some bytes) m.evals.flatten evalsBytes)
    {proofBytes : List.Vector UInt8 commitmentSize} (hproofBytes : S.proofToBytes m.proof = some proofBytes) :
    readItem b A S.toParsers p.points commitmentsBytes.flatten ((evalsBytes, proofBytes), m.block.gcellBlock) =
      .ok ⟨(commitments.drop m.block.startY).take (m.block.endY - m.block.startY),
        (p.points.drop m.block.startX).take (m.block.endX - m.block.startX), m.evals, m.proof⟩ := by
  have hwidthLt : p.dims.width < 2 ^ 16 := p.dims.cols.property.2
  have hheightLt : p.dims.height < 2 ^ 16 := p.dims.rows.property.2
  obtain ⟨hstartX, hendX, hx, hwidth⟩ := toNat_sub_ofNat h.columns.le (h.endX_le.trans_lt hwidthLt)
  obtain ⟨hstartY, -, hy, hheight⟩ := toNat_sub_ofNat h.rows.le (h.endY_le.trans_lt hheightLt)
  have hlength : ∀ bytes ∈ commitmentsBytes, bytes.length = commitmentSize := by
    intro bytes hbytes
    obtain ⟨c, -, hc⟩ := Except.exists_of_mem_forall₂ hcommitmentsBytes hbytes
    exact S.length_toBytes hc
  refine (readItem_eq_ok_iff b A S.toParsers).mpr ⟨m.evals.flatten, _, _, ?_, b.sub_of_le hx, ?_,
    S.proof_proofToBytes hproofBytes, b.sub_of_le hy, ?_, ?_, ?_⟩
  · rw [Except.mapM_ok_iff]
    exact (hevalsBytes.imp fun s bytes h => Run.okOr_eq_ok.mpr (A.fromBytes_toBytes h)).flip
  · intro hzero
    have hlt := h.columns
    rw [CellBlock.gcellBlock] at hzero
    rw [hzero] at hwidth
    have hz : (0 : UInt32).toNat = 0 := rfl
    omega
  · simp only [blockCommitments_flatten hlength, CellBlock.gcellBlock, hstartY, hheight]
    rw [Except.mapM_ok_iff]
    exact (List.forall₂_take _ (List.forall₂_drop _ (hcommitmentsBytes.imp fun c bytes h =>
      Run.okOr_eq_ok.mpr (S.commitment_toBytes h)))).flip
  · simp only [CellBlock.gcellBlock, hstartX, hendX]
    exact Run.slice_eq_ok h.columns.le (hpoints ▸ h.endX_le)
  · have hrows := chunksExact_flatten (Nat.sub_pos_of_lt h.columns) h.length_row
    simp only [CellBlock.gcellBlock, hwidth]
    exact hrows.symm

/-- **What the node proves of a block, a light client verifies.** -/
theorem verifyMultiProof_multiproof {C P : Type} (b : Build) {A : Ark} {S : MultiScheme C P} {g : EvaluationGrid}
    (hcols : isPowerOfTwo g.dims.width = true) {p : PolynomialGrid} (hp : g.makePolynomialGrid A = .ok p) {cell : Cell}
    {targetDims : Dimensions} {m : Multiproof P} (hm : p.multiproof S cell g targetDims = .ok m)
    {commitments : List C} (hcommitments : p.commitments S.toCommitter = .ok commitments)
    {commitmentsBytes : List (List UInt8)}
    (hcommitmentsBytes : List.Forall₂ (fun c bytes => S.toBytes c = some bytes) commitments commitmentsBytes)
    {evalsBytes : List Chunk}
    (hevalsBytes : List.Forall₂ (fun s bytes => A.toBytes s = some bytes) m.evals.flatten evalsBytes)
    {proofBytes : List.Vector UInt8 commitmentSize} (hproofBytes : S.proofToBytes m.proof = some proofBytes) :
    verifyMultiProof b A S.toParsers (S.verify availMp) [((evalsBytes, proofBytes), m.block.gcellBlock)]
      commitmentsBytes.flatten g.dims.width = .ok true := by
  have hopens := opens_of_multiproof hp hcols hm
  obtain ⟨domain, hdomain, rfl⟩ := EvaluationGrid.makePolynomialGrid_eq_ok.mp hp
  have hpoints : domain.elements.length = g.dims.width := by
    rw [domain.length_elements, A.size_newDomain_eq hdomain hcols]
  rw [PolynomialGrid.commitments, Except.mapM_ok_iff] at hcommitments
  simp only [Run.okOr_eq_ok] at hcommitments
  rw [verifyMultiProof_eq_true_iff]
  refine ⟨domain, hdomain, fun item hitem => ?_⟩
  obtain rfl := List.mem_singleton.mp hitem
  refine ⟨_, hopens.readItem_eq b hpoints hcommitmentsBytes hevalsBytes hproofBytes, ?_⟩
  exact S.complete (List.forall₂_take _ (List.forall₂_drop _ hcommitments)) hopens.values hopens.opened

/-- Two rows of two blocks. -/
def fourBlocks : Dimensions := ⟨⟨2, NonZeroU16.two_bounds⟩, ⟨2, NonZeroU16.two_bounds⟩⟩

/-- The commitments to the extension of two applications have bytes. -/
theorem exists_commitmentsBytes_twoApps :
    ∃ commitmentsBytes, List.Forall₂ (fun c bytes => (MultiScheme.atPoint 5).toBytes c = some bytes)
      (twoAppsPolynomials.inner.map (horner 5)) commitmentsBytes :=
  Except.exists_forall₂ fun _ _ => ⟨_, rfl⟩

/-- The extension of two applications, cut into four blocks: the last of them. -/
theorem verifyMultiProof_multiproof_two : ∃ (m : Multiproof ArkScalar) (commitmentsBytes : List (List UInt8))
    (evalsBytes : List Chunk) (proofBytes : List.Vector UInt8 commitmentSize),
    twoAppsPolynomials.multiproof (MultiScheme.atPoint 5) ⟨1, 1⟩ twoAppsExtended fourBlocks = .ok m ∧
    m.block = ⟨2, 2, 4, 4⟩ ∧
    verifyMultiProof .checked bls12381 (MultiScheme.atPoint 5).toParsers ((MultiScheme.atPoint 5).verify availMp)
      [((evalsBytes, proofBytes), m.block.gcellBlock)] commitmentsBytes.flatten 4 = .ok true := by
  have hblock : multiproofBlock 1 1 twoAppsPolynomials.dims fourBlocks = some ⟨2, 2, 4, 4⟩ := by decide
  obtain ⟨m, hm, hcorners⟩ := @exists_multiproof _ _ (MultiScheme.atPoint 5) _ _ _ ⟨1, 1⟩ fourBlocks
    makePolynomialGrid_twoApps _ hblock fun _ _ => isSome_openMulti_five bls12381_newDomain_four ..
  obtain ⟨commitmentsBytes, hcommitmentsBytes⟩ := exists_commitmentsBytes_twoApps
  obtain ⟨evalsBytes, hevalsBytes⟩ := @Except.exists_forall₂ _ _
    (fun s bytes => bls12381.toBytes s = some bytes) m.evals.flatten fun _ _ => ⟨_, rfl⟩
  obtain ⟨proofBytes, hproofBytes⟩ : ∃ bytes, (MultiScheme.atPoint 5).proofToBytes m.proof = some bytes := ⟨_, rfl⟩
  exact ⟨m, commitmentsBytes, evalsBytes, proofBytes, hm, hcorners, verifyMultiProof_multiproof .checked (by decide)
    makePolynomialGrid_twoApps hm (twoAppsPolynomials.commitments_atPoint 5) hcommitmentsBytes hevalsBytes hproofBytes⟩

end AvailCore
