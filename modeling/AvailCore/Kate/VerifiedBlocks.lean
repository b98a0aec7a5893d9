import AvailCore.Kate.Multiproof
import AvailCore.Kate.Sampling

/-!
# A block, read from multiproofs that peers send

Instead of cells with a proof each, a light client asks for blocks of cells with one proof
for all of them, and hands what it gets to `verify_multi_proof` as one batch. Only a batch
in which every item is accepted is read.

## The model

Of an item a client knows which block of the grid it is for, and counts its scalars, which
`verify_multi_proof` does not (`BlockItem`); the scalars are in rows. As for cells in
`AvailCore.Kate.Sampling`, nothing is assumed of what the scheme binds: an item that is
accepted with other values than those that the node opens for the same block, which it can,
is named where there is one (`ForgedBlock`).

## What is proved

What is read from an accepted batch without a forged item is what the grid has
(`forgedBlock_or_hasCell`), and so the published extrinsics, or an error
(`reconstructExtrinsics_readFrom`). Nodes that follow the protocol are accepted whatever
blocks they are asked for, and from all blocks every cell of the grid is read
(`verifyMultiProof_sent`). As in `AvailCore.Kate.Multiproof`, the width of the grid is a
power of two.
-/

namespace AvailCore

open Chunks AvailCore.Fourier

variable {C P : Type}

/-! ### What is checked -/

/-- Values for a block: a row for each commitment, with one for each point. -/
structure IsBlock (commits : List C) (points : List ArkScalar) (evals : List (List ArkScalar)) : Prop where
  rows : evals.length = commits.length
  columns : ∀ row ∈ evals, row.length = points.length

/-- Two openings of the same commitments at the same points, to different values. -/
structure DoubleBlock (S : MultiScheme C P) (commits : List C) (points : List ArkScalar)
    (evals evals' : List (List ArkScalar)) (proof proof' : P) : Prop where
  shape : IsBlock commits points evals
  shape' : IsBlock commits points evals'
  first : S.verify availMp commits points evals proof = some true
  second : S.verify availMp commits points evals' proof' = some true
  differ : evals ≠ evals'

/-- An item that opens the commitments to the rows of its block differently than the node that committed to them. -/
def ForgedBlock (A : Ark) (S : MultiScheme C P) (p : PolynomialGrid) (g : EvaluationGrid) (target : Dimensions)
    (commitments : List C) (item : ProofItem) : Prop :=
  ∃ asked m evals proof, p.multiproof S asked g target = .ok m ∧ item.2 = m.block.gcellBlock ∧
    List.Forall₂ (fun bytes s => A.fromBytes bytes = some s) item.1.1 evals.flatten ∧
    S.proof item.1.2 = some proof ∧
    DoubleBlock S ((commitments.drop m.block.startY).take (m.block.endY - m.block.startY))
      ((p.points.drop m.block.startX).take (m.block.endX - m.block.startX)) evals m.evals proof m.proof

/-- Every block of the grid can be opened. -/
def PolynomialGrid.OpensBlocks (S : MultiScheme C P) (p : PolynomialGrid) (g : EvaluationGrid)
    (target : Dimensions) : Prop :=
  ∀ cell : Cell, (multiproofBlock cell.col.toNat cell.row.toNat p.dims target).isSome →
    ∃ m, p.multiproof S cell g target = .ok m

/-- An item for a block of the grid, with as many scalars as it has cells. -/
structure BlockItem (dims target : Dimensions) (item : ProofItem) (block : CellBlock) : Prop where
  asked : ∃ cell : Cell, multiproofBlock cell.col.toNat cell.row.toNat dims target = some block
  corners : item.2 = block.gcellBlock
  scalars : item.1.1.length = (block.endY - block.startY) * (block.endX - block.startX)

/-- The bytes that an item has in a position of its block. -/
def CellBlock.chunkAt (block : CellBlock) (item : ProofItem) (position : Position) : Option Chunk :=
  item.1.1[(position.row - block.startY) * (block.endX - block.startX) + (position.col - block.startX)]?

/-- A cell that is read from a batch. -/
def ReadFrom (dims target : Dimensions) (items : List ProofItem) (cell : DataCell) : Prop :=
  ∃ item ∈ items, ∃ block, BlockItem dims target item block ∧
    block.Contains cell.position.row cell.position.col ∧ block.chunkAt item cell.position = some cell.data

/-- Every cell of the block of an item is read from it. -/
theorem BlockItem.exists_readFrom {dims target : Dimensions} {item : ProofItem} {block : CellBlock}
    (h : BlockItem dims target item block) {row col : ℕ} (hin : block.Contains row col) {items : List ProofItem}
    (hitem : item ∈ items) : ∃ data, ReadFrom dims target items ⟨⟨row, col⟩, data⟩ := by
  obtain ⟨⟨hx, hx'⟩, hy, hy'⟩ := hin
  have hlt : (row - block.startY) * (block.endX - block.startX) + (col - block.startX) < item.1.1.length := by
    have hrows : row - block.startY + 1 ≤ block.endY - block.startY := by omega
    have hmul := Nat.mul_le_mul_right (block.endX - block.startX) hrows
    rw [Nat.succ_mul] at hmul
    rw [h.scalars]
    omega
  exact ⟨item.1.1[_], item, hitem, block, h, ⟨⟨hx, hx'⟩, hy, hy'⟩, List.getElem?_eq_getElem hlt⟩

/-! ### An accepted block -/

/-- Rows of one length, by row and column. -/
theorem getElem?_chunksExact {α : Type} {k i j : ℕ} {xs row : List α} (hrow : (chunksExact k xs)[i]? = some row)
    (hj : j < k) : xs[i * k + j]? = row[j]? := by
  rw [chunksExact, List.getElem?_map] at hrow
  obtain ⟨i', hi', rfl⟩ := Option.map_eq_some_iff.mp hrow
  obtain rfl : i = i' := by
    obtain ⟨hlt, hval⟩ := List.getElem?_eq_some_iff.mp hi'
    rwa [List.getElem_range] at hval
  rw [List.getElem?_take_of_lt hj, List.getElem?_drop]

/-- What an item for a block hands to the scheme. -/
theorem opening_of_readItem {b : Build} {A : Ark} {S : MultiScheme C P} {commitments : List C}
    {commitmentsBytes : List (List UInt8)}
    (hbytes : List.Forall₂ (fun c bytes => S.toBytes c = some bytes) commitments commitmentsBytes)
    {points : List ArkScalar} {item : ProofItem} {block : CellBlock} (hcorners : item.2 = block.gcellBlock)
    (hx : block.startX < block.endX) (hendX : block.endX < 2 ^ 16) (hy : block.startY < block.endY)
    (hendY : block.endY < 2 ^ 16) {o : Opening C P}
    (h : readItem b A S.toParsers points commitmentsBytes.flatten item = .ok o) :
    o.commits = (commitments.drop block.startY).take (block.endY - block.startY) ∧
      o.points = (points.drop block.startX).take (block.endX - block.startX) ∧ S.proof item.1.2 = some o.proof ∧
      ∃ evals, List.Forall₂ (fun bytes s => A.fromBytes bytes = some s) item.1.1 evals ∧
        o.evals = chunksExact (block.endX - block.startX) evals := by
  obtain ⟨hstartX, hend, hleX, hwidth⟩ := toNat_sub_ofNat hx.le hendX
  obtain ⟨hstartY, -, hleY, hheight⟩ := toNat_sub_ofNat hy.le hendY
  have hlength : ∀ bytes ∈ commitmentsBytes, bytes.length = commitmentSize := by
    intro bytes hbytes'
    obtain ⟨c, -, hc⟩ := Except.exists_of_mem_forall₂ hbytes hbytes'
    exact S.length_toBytes hc
  obtain ⟨evals, width, height, hevals, hwidth', -, hproof, hheight', hcommits, hpoints, hgrid⟩ :=
    (readItem_eq_ok_iff b A S.toParsers).mp h
  rw [hcorners] at hwidth' hheight' hcommits hpoints
  obtain rfl : UInt32.ofNat block.endX - UInt32.ofNat block.startX = width :=
    Except.ok.inj ((b.sub_of_le hleX).symm.trans hwidth')
  obtain rfl : UInt32.ofNat block.endY - UInt32.ofNat block.startY = height :=
    Except.ok.inj ((b.sub_of_le hleY).symm.trans hheight')
  rw [hwidth] at hgrid
  simp only [blockCommitments_flatten hlength, CellBlock.gcellBlock, hstartY, hheight] at hcommits
  simp only [CellBlock.gcellBlock, hstartX, hend] at hpoints
  refine ⟨?_, (Run.slice_eq_ok_iff.mp hpoints).2.2, hproof, evals, ?_, hgrid⟩
  · -- the bytes of the commitments are read as the commitments
    have hread : (((commitmentsBytes.drop block.startY).take (block.endY - block.startY)).mapM fun bytes =>
        Run.okOr ProofError.failedToExtractCommitments (S.commitment bytes)) =
          .ok ((commitments.drop block.startY).take (block.endY - block.startY)) := by
      rw [Except.mapM_ok_iff]
      exact (List.forall₂_take _ (List.forall₂_drop _ (hbytes.imp fun c bytes h =>
        Run.okOr_eq_ok.mpr (S.commitment_toBytes h)))).flip
    exact Except.ok.inj (hcommits.symm.trans hread)
  · exact (Except.mapM_ok_iff.mp hevals).imp fun bytes s h => Run.okOr_eq_ok.mp h

section Accepted

variable {A : Ark} {S : MultiScheme C P} {g : EvaluationGrid} (hcols : isPowerOfTwo g.dims.width = true)
  {p : PolynomialGrid} (hp : g.makePolynomialGrid A = .ok p) {commitments : List C}
  (hcommitments : p.commitments S.toCommitter = .ok commitments) {commitmentsBytes : List (List UInt8)}
  (hbytes : List.Forall₂ (fun c bytes => S.toBytes c = some bytes) commitments commitmentsBytes)

theorem block_of_multiproof {cell : Cell} {target : Dimensions} {m : Multiproof P}
    (hm : p.multiproof S cell g target = .ok m) :
    multiproofBlock cell.col.toNat cell.row.toNat p.dims target = some m.block := by
  simp only [PolynomialGrid.multiproof, Except.bind_eq_ok, Run.okOr_eq_ok, Except.pure_eq_ok, Except.ok.injEq] at hm
  obtain ⟨block, hblock, -, -, -, -, -, -, -, -, rfl⟩ := hm
  exact hblock

include hcommitments in
/-- What is opened is accepted. -/
theorem Opens.accepted {m : Multiproof P} (hopens : Opens S p m) :
    S.verify availMp ((commitments.drop m.block.startY).take (m.block.endY - m.block.startY))
      ((p.points.drop m.block.startX).take (m.block.endX - m.block.startX)) m.evals m.proof = some true := by
  rw [PolynomialGrid.commitments, Except.mapM_ok_iff] at hcommitments
  simp only [Run.okOr_eq_ok] at hcommitments
  exact S.complete (List.forall₂_take _ (List.forall₂_drop _ hcommitments)) hopens.values hopens.opened

include hcols hp in
/-- The values that are opened are those of the grid. -/
theorem Opens.get_eq {m : Multiproof P} (hopens : Opens S p m) {i j : ℕ} {row : List ArkScalar}
    (hrow : m.evals[i]? = some row) (hj : j < m.block.endX - m.block.startX) :
    row[j]? = g.evals.get (m.block.startY + i) (m.block.startX + j) := by
  obtain ⟨domain, hdomain, rfl⟩ := EvaluationGrid.makePolynomialGrid_eq_ok.mp hp
  have hsize : domain.size = g.dims.width := A.size_newDomain_eq hdomain hcols
  obtain ⟨poly, hpoly, rfl⟩ := Except.exists_of_getElem?_forall₂ hopens.values hrow
  obtain ⟨hlt, -⟩ := List.getElem?_eq_some_iff.mp hpoly
  have hi : i < m.block.endY - m.block.startY := (List.length_take_le ..).trans_lt' hlt
  rw [List.getElem?_take_of_lt hi, List.getElem?_drop, List.getElem?_map] at hpoly
  obtain ⟨y, hy, rfl⟩ := Option.map_eq_some_iff.mp hpoly
  obtain ⟨hrange, rfl⟩ := List.getElem?_eq_some_iff.mp hy
  rw [List.length_range] at hrange
  have hlength : (g.evals.row (m.block.startY + i)).length = domain.size := by rw [g.evals.length_row hrange, hsize]
  have hvalues := congrArg (fun row => row[m.block.startX + j]?) (A.map_eval_elements hdomain hlength)
  rw [List.getElem_range, ← g.evals.getElem?_row hrange, ← hvalues, List.getElem?_map, List.getElem?_map,
    List.getElem?_take_of_lt hj, List.getElem?_drop]

/-- The shape of a block: its rows, and its columns. -/
theorem Opens.isBlock_iff {m : Multiproof P} (hopens : Opens S p m) (hlength : commitments.length = p.dims.height)
    (hpoints : p.points.length = p.dims.width) {evals : List (List ArkScalar)} :
    IsBlock ((commitments.drop m.block.startY).take (m.block.endY - m.block.startY))
      ((p.points.drop m.block.startX).take (m.block.endX - m.block.startX)) evals ↔
    evals.length = m.block.endY - m.block.startY ∧ ∀ row ∈ evals, row.length = m.block.endX - m.block.startX := by
  have hendX := hopens.endX_le
  have hendY := hopens.endY_le
  have hrows : ((commitments.drop m.block.startY).take (m.block.endY - m.block.startY)).length =
      m.block.endY - m.block.startY := by
    rw [List.length_take, List.length_drop, hlength]
    omega
  have hcolumns : ((p.points.drop m.block.startX).take (m.block.endX - m.block.startX)).length =
      m.block.endX - m.block.startX := by
    rw [List.length_take, List.length_drop, hpoints]
    omega
  constructor
  · intro h
    exact ⟨h.rows.trans hrows, fun row hrow => (h.columns row hrow).trans hcolumns⟩
  · intro h
    exact ⟨h.1.trans hrows.symm, fun row hrow => (h.2 row hrow).trans hcolumns.symm⟩

include hcols hp in
/-- What is read from an item with the values that are opened is what the grid has. -/
theorem Opens.hasCell {m : Multiproof P} (hopens : Opens S p m) {item : ProofItem}
    (hevals : List.Forall₂ (fun bytes s => A.fromBytes bytes = some s) item.1.1 m.evals.flatten) {cell : DataCell}
    (hcontains : m.block.Contains cell.position.row cell.position.col)
    (hchunk : m.block.chunkAt item cell.position = some cell.data) : g.HasCell A cell := by
  obtain ⟨⟨hx, hx'⟩, hy, hy'⟩ := hcontains
  have hj : cell.position.col - m.block.startX < m.block.endX - m.block.startX := by omega
  obtain ⟨s, hs, hvalue⟩ := Except.exists_of_getElem?_forall₂ hevals.flip hchunk
  have hi : cell.position.row - m.block.startY < m.evals.length := by
    obtain ⟨domain, hdomain, rfl⟩ := EvaluationGrid.makePolynomialGrid_eq_ok.mp hp
    have hendY : m.block.endY ≤ g.dims.height := hopens.endY_le
    rw [← hopens.values.length_eq, List.length_take, List.length_drop, List.length_map, List.length_range]
    omega
  obtain ⟨row, hrow⟩ : ∃ row, m.evals[cell.position.row - m.block.startY]? = some row :=
    ⟨_, List.getElem?_eq_getElem hi⟩
  have hrows := chunksExact_flatten (Nat.sub_pos_of_lt hopens.columns) hopens.length_row
  have hentry := getElem?_chunksExact (hrows.symm ▸ hrow) hj
  rw [hs, hopens.get_eq hcols hp hrow hj, Nat.add_sub_cancel' hx, Nat.add_sub_cancel' hy] at hentry
  exact ⟨s, hentry.symm, A.toBytes_fromBytes hvalue⟩

include hcols hp hcommitments hbytes in
/-- **An item that is accepted has the values of its block, or is forged.** -/
theorem forgedBlock_or_evals {b : Build} {target : Dimensions} {asked : Cell} {m : Multiproof P}
    (hm : p.multiproof S asked g target = .ok m) {item : ProofItem} (hcorners : item.2 = m.block.gcellBlock)
    (hscalars : item.1.1.length = (m.block.endY - m.block.startY) * (m.block.endX - m.block.startX)) {o : Opening C P}
    (hread : readItem b A S.toParsers p.points commitmentsBytes.flatten item = .ok o)
    (hverify : S.verify availMp o.commits o.points o.evals o.proof = some true) :
    ForgedBlock A S p g target commitments item ∨
      List.Forall₂ (fun bytes s => A.fromBytes bytes = some s) item.1.1 m.evals.flatten := by
  have hopened := opens_of_multiproof hp hcols hm
  have hinner : p.inner.length = p.dims.height := by
    obtain ⟨domain, -, rfl⟩ := EvaluationGrid.makePolynomialGrid_eq_ok.mp hp
    exact (List.length_map ..).trans List.length_range
  have hpoints : p.points.length = p.dims.width := by
    obtain ⟨domain, hdomain, rfl⟩ := EvaluationGrid.makePolynomialGrid_eq_ok.mp hp
    exact domain.length_elements.trans (A.size_newDomain_eq hdomain hcols)
  have hlength : commitments.length = p.dims.height := (Except.mapM_ok_iff.mp hcommitments).length_eq.symm.trans hinner
  obtain ⟨hcommits, hopoints, hproof, evals, hevals, hgrid⟩ := opening_of_readItem hbytes hcorners hopened.columns
    (hopened.endX_le.trans_lt p.dims.cols.property.2) hopened.rows (hopened.endY_le.trans_lt p.dims.rows.property.2)
    hread
  rw [hcommits, hopoints] at hverify
  -- the scalars fill the rows of the block
  have hpos := Nat.sub_pos_of_lt hopened.columns
  have hevalsLength : evals.length = (m.block.endY - m.block.startY) * (m.block.endX - m.block.startX) :=
    hevals.length_eq.symm.trans hscalars
  have hcount : o.evals.length = m.block.endY - m.block.startY := by
    rw [hgrid, chunksExact, List.length_map, List.length_range, hevalsLength]
    exact Nat.mul_div_cancel _ hpos
  have hflatten : o.evals.flatten = evals := by
    have hrem : remainder (m.block.endX - m.block.startX) evals = [] := by
      rw [← List.length_eq_zero_iff, length_remainder, hevalsLength, Nat.mul_mod_left]
    have hjoin := flatten_chunksExact_append_remainder hpos evals
    rwa [hrem, List.append_nil, ← hgrid] at hjoin
  rw [← hflatten] at hevals
  by_cases hsame : o.evals = m.evals
  · exact .inr (hsame ▸ hevals)
  · have hpolys := hopened.values.length_eq
    rw [List.length_take, List.length_drop, hinner] at hpolys
    have hendY := hopened.endY_le
    exact .inl ⟨asked, m, o.evals, o.proof, hm, hcorners, hevals, hproof,
      (hopened.isBlock_iff hlength hpoints).mpr ⟨hcount, fun row hrow => length_of_mem_chunksExact (hgrid ▸ hrow)⟩,
      (hopened.isBlock_iff hlength hpoints).mpr ⟨by omega, hopened.length_row⟩, hverify, hopened.accepted hcommitments,
      hsame⟩

include hcols hp hcommitments hbytes in
/-- **What is read from an accepted batch is what the grid has, or an item is forged**, whoever sent it. -/
theorem forgedBlock_or_hasCell {b : Build} {target : Dimensions} (hopens : p.OpensBlocks S g target)
    {items : List ProofItem}
    (haccept : verifyMultiProof b A S.toParsers (S.verify availMp) items commitmentsBytes.flatten g.dims.width =
      .ok true) :
    (∃ item ∈ items, ForgedBlock A S p g target commitments item) ∨
      ∀ cell, ReadFrom g.dims target items cell → g.HasCell A cell := by
  rw [or_iff_not_imp_left]
  rintro hhonest cell ⟨item, hitem, block, ⟨⟨asked, hasked⟩, hcorners, hscalars⟩, hcontains, hchunk⟩
  have hdims : p.dims = g.dims := by
    obtain ⟨-, -, rfl⟩ := EvaluationGrid.makePolynomialGrid_eq_ok.mp hp
    rfl
  -- the node's opening of this block
  obtain ⟨m, hm⟩ := hopens asked (by rw [hdims, hasked]; rfl)
  obtain rfl : m.block = block := by
    have hblock := block_of_multiproof hm
    rw [hdims, hasked, Option.some.injEq] at hblock
    exact hblock.symm
  obtain ⟨o, ho, hverify⟩ : ∃ o, readItem b A S.toParsers p.points commitmentsBytes.flatten item = .ok o ∧
      S.verify availMp o.commits o.points o.evals o.proof = some true := by
    obtain ⟨domain, hdomain, hitems⟩ := (verifyMultiProof_eq_true_iff ..).mp haccept
    obtain ⟨domain', hdomain', rfl⟩ := EvaluationGrid.makePolynomialGrid_eq_ok.mp hp
    obtain rfl : domain = domain' := Option.some.inj (hdomain.symm.trans hdomain')
    exact hitems item hitem
  have hevals := (forgedBlock_or_evals hcols hp hcommitments hbytes hm hcorners hscalars ho hverify).resolve_left
    fun hforged => hhonest ⟨item, hitem, hforged⟩
  exact (opens_of_multiproof hp hcols hm).hasCell hcols hp hevals hcontains hchunk

end Accepted

/-! ### A node that follows the protocol -/

/-- What a node sends for a block: its values and the proof, as bytes. -/
def Sent (A : Ark) (S : MultiScheme C P) (p : PolynomialGrid) (g : EvaluationGrid) (target : Dimensions)
    (asked : Cell) (item : ProofItem) : Prop :=
  ∃ m, p.multiproof S asked g target = .ok m ∧ item.2 = m.block.gcellBlock ∧
    S.proofToBytes m.proof = some item.1.2 ∧
    List.Forall₂ (fun s bytes => A.toBytes s = some bytes) m.evals.flatten item.1.1

/-- The corners are those of one block of the grid. -/
theorem multiproofBlock_inj {x y x' y' : ℕ} {grid target : Dimensions} {block block' : CellBlock}
    (h : multiproofBlock x y grid target = some block) (h' : multiproofBlock x' y' grid target = some block')
    (hcorners : block.gcellBlock = block'.gcellBlock) : block = block' := by
  obtain ⟨hx, hendX, hy, hendY⟩ := multiproofBlock_eq_some h
  obtain ⟨hx', hendX', hy', hendY'⟩ := multiproofBlock_eq_some h'
  have hwidth : grid.width < 2 ^ 32 := grid.cols.property.2.trans (by decide)
  have hheight : grid.height < 2 ^ 32 := grid.rows.property.2.trans (by decide)
  have hof : ∀ {i j : ℕ}, i < 2 ^ 32 → j < 2 ^ 32 → UInt32.ofNat i = UInt32.ofNat j → i = j := by
    intro i j hi hj heq
    rw [← toNat_ofNat_of_lt hi, heq, toNat_ofNat_of_lt hj]
  simp only [CellBlock.gcellBlock, GCellBlock.mk.injEq] at hcorners
  obtain ⟨hstartX, hstartY, hlastX, hlastY⟩ := hcorners
  rw [CellBlock.mk.injEq]
  exact ⟨hof (by omega) (by omega) hstartX, hof (by omega) (by omega) hstartY, hof (by omega) (by omega) hlastX,
    hof (by omega) (by omega) hlastY⟩

/-- A node has one opening for a block. -/
theorem multiproof_inj {S : MultiScheme C P} {p : PolynomialGrid} {g : EvaluationGrid} {target : Dimensions}
    {cell cell' : Cell} {m m' : Multiproof P} (hm : p.multiproof S cell g target = .ok m)
    (hm' : p.multiproof S cell' g target = .ok m') (hcorners : m.block.gcellBlock = m'.block.gcellBlock) : m = m' := by
  have hblock := block_of_multiproof hm
  have hblock' := block_of_multiproof hm'
  rw [multiproofBlock_inj hblock hblock' hcorners] at hblock
  have hrun : p.multiproof S cell g target = p.multiproof S cell' g target := by
    simp only [PolynomialGrid.multiproof, hblock, hblock']
  exact Except.ok.inj (hm.symm.trans (hrun.trans hm'))

/-- So what it sends is not forged. -/
theorem Sent.not_forgedBlock {A : Ark} {S : MultiScheme C P} {p : PolynomialGrid} {g : EvaluationGrid}
    {target : Dimensions} {asked : Cell} {item : ProofItem} (h : Sent A S p g target asked item) (commitments : List C) :
    ¬ ForgedBlock A S p g target commitments item := by
  obtain ⟨m, hm, hcorners, -, hevals⟩ := h
  rintro ⟨asked', m', evals, proof, hm', hcorners', hread, -, hdouble⟩
  obtain rfl : m = m' := multiproof_inj hm hm' (hcorners.symm.trans hcorners')
  have hunique : Relator.RightUnique fun (bytes : Chunk) (s : ArkScalar) => A.fromBytes bytes = some s :=
    fun _ _ _ hs hs' => Option.some.inj (hs.symm.trans hs')
  have hflatten : evals.flatten = m.evals.flatten :=
    List.right_unique_forall₂' hunique hread (hevals.flip.imp fun _ _ hbytes => A.fromBytes_toBytes hbytes)
  have hrows : evals.map List.length = m.evals.map List.length := by
    rw [List.map_congr_left hdouble.shape.columns, List.map_congr_left hdouble.shape'.columns, List.map_const',
      List.map_const', hdouble.shape.rows, hdouble.shape'.rows]
  exact hdouble.differ (List.eq_iff_flatten_eq.mpr ⟨hflatten, hrows⟩)

theorem not_exists_forgedBlock {A : Ark} {S : MultiScheme C P} {p : PolynomialGrid} {g : EvaluationGrid}
    {target : Dimensions} {asked : List Cell} {items : List ProofItem}
    (hsent : List.Forall₂ (Sent A S p g target) asked items) (commitments : List C) :
    ¬ ∃ item ∈ items, ForgedBlock A S p g target commitments item := by
  rintro ⟨item, hitem, hforged⟩
  obtain ⟨cell, -, h⟩ := Except.exists_of_mem_forall₂ hsent hitem
  exact Sent.not_forgedBlock h commitments hforged

section Sent

variable {A : Ark} {S : MultiScheme C P} {g : EvaluationGrid} (hcols : isPowerOfTwo g.dims.width = true)
  {p : PolynomialGrid} (hp : g.makePolynomialGrid A = .ok p)
include hcols hp

/-- It is for the block that was asked for, with its scalars. -/
theorem Sent.blockItem {target : Dimensions} {asked : Cell} {item : ProofItem} (h : Sent A S p g target asked item) :
    ∃ block, multiproofBlock asked.col.toNat asked.row.toNat g.dims target = some block ∧
      BlockItem g.dims target item block := by
  obtain ⟨m, hm, hcorners, -, hevals⟩ := h
  have hopened := opens_of_multiproof hp hcols hm
  have hblock := block_of_multiproof hm
  obtain ⟨domain, hdomain, rfl⟩ := EvaluationGrid.makePolynomialGrid_eq_ok.mp hp
  refine ⟨m.block, hblock, ⟨asked, hblock⟩, hcorners, ?_⟩
  have hrows := hopened.values.length_eq
  rw [List.length_take, List.length_drop, List.length_map, List.length_range] at hrows
  have hendY : m.block.endY ≤ g.dims.height := hopened.endY_le
  rw [← hevals.length_eq, List.length_flatten, List.map_congr_left hopened.length_row, List.map_const', List.sum_replicate,
    smul_eq_mul]
  congr 1
  omega

/-- It is accepted. -/
theorem Sent.exists_opening (b : Build) {target : Dimensions} {asked : Cell} {item : ProofItem}
    (h : Sent A S p g target asked item) {commitments : List C}
    (hcommitments : p.commitments S.toCommitter = .ok commitments) {commitmentsBytes : List (List UInt8)}
    (hbytes : List.Forall₂ (fun c bytes => S.toBytes c = some bytes) commitments commitmentsBytes) :
    ∃ o, readItem b A S.toParsers p.points commitmentsBytes.flatten item = .ok o ∧
      S.verify availMp o.commits o.points o.evals o.proof = some true := by
  obtain ⟨m, hm, hcorners, hproof, hevals⟩ := h
  have hopened := opens_of_multiproof hp hcols hm
  have hpoints : p.points.length = p.dims.width := by
    obtain ⟨domain, hdomain, rfl⟩ := EvaluationGrid.makePolynomialGrid_eq_ok.mp hp
    exact domain.length_elements.trans (A.size_newDomain_eq hdomain hcols)
  obtain ⟨⟨evalsBytes, proofBytes⟩, corners⟩ := item
  obtain rfl : corners = m.block.gcellBlock := hcorners
  exact ⟨_, hopened.readItem_eq b hpoints hbytes hevals hproof, hopened.accepted hcommitments⟩

theorem verifyMultiProof_eq_true_of_sent (b : Build) {target : Dimensions} {commitments : List C}
    (hcommitments : p.commitments S.toCommitter = .ok commitments) {commitmentsBytes : List (List UInt8)}
    (hbytes : List.Forall₂ (fun c bytes => S.toBytes c = some bytes) commitments commitmentsBytes) {asked : List Cell}
    {items : List ProofItem} (hsent : List.Forall₂ (Sent A S p g target) asked items) :
    verifyMultiProof b A S.toParsers (S.verify availMp) items commitmentsBytes.flatten g.dims.width = .ok true := by
  rw [verifyMultiProof_eq_true_iff]
  obtain ⟨domain, hdomain, hgrid⟩ := EvaluationGrid.makePolynomialGrid_eq_ok.mp hp
  refine ⟨domain, hdomain, fun item hitem => ?_⟩
  obtain ⟨cell, -, h⟩ := Except.exists_of_mem_forall₂ hsent hitem
  have hopening := h.exists_opening hcols hp b hcommitments hbytes
  rwa [← hgrid] at hopening

/-- The cells of its block are read from it. -/
theorem Sent.exists_readFrom {target : Dimensions} {asked : Cell} {item : ProofItem} (h : Sent A S p g target asked item)
    {row col : ℕ} (hcontains : ∃ block, multiproofBlock asked.col.toNat asked.row.toNat g.dims target = some block ∧
      block.Contains row col) {items : List ProofItem} (hitem : item ∈ items) :
    ∃ data, ReadFrom g.dims target items ⟨⟨row, col⟩, data⟩ := by
  obtain ⟨block, hblock, hof⟩ := h.blockItem hcols hp
  obtain ⟨block', hblock', hin⟩ := hcontains
  obtain rfl : block' = block := Option.some.inj (hblock'.symm.trans hblock)
  exact hof.exists_readFrom hin hitem

/-- **Nodes that follow the protocol are accepted, whatever blocks they are asked for**, and all blocks together have
every cell of the grid. -/
theorem verifyMultiProof_sent (b : Build) {target d : Dimensions} (hdims : multiproofDims g.dims target = some d)
    {commitments : List C} (hcommitments : p.commitments S.toCommitter = .ok commitments)
    {commitmentsBytes : List (List UInt8)}
    (hbytes : List.Forall₂ (fun c bytes => S.toBytes c = some bytes) commitments commitmentsBytes) {asked : List Cell}
    {items : List ProofItem} (hsent : List.Forall₂ (Sent A S p g target) asked items) :
    verifyMultiProof b A S.toParsers (S.verify availMp) items commitmentsBytes.flatten g.dims.width = .ok true ∧
    ((∀ x < d.width, ∀ y < d.height, ∃ cell ∈ asked, cell.col.toNat = x ∧ cell.row.toNat = y) →
      ∀ row < g.dims.height, ∀ col < g.dims.width, ∃ data, ReadFrom g.dims target items ⟨⟨row, col⟩, data⟩) := by
  refine ⟨verifyMultiProof_eq_true_of_sent hcols hp b hcommitments hbytes hsent, fun hall row hrow col hcol => ?_⟩
  obtain ⟨hwidth, hheight⟩ := multiproofDims_eq_some hdims
  obtain ⟨cell, hcell, hx, hy⟩ := hall _ (div_part_lt hwidth hcol) _ (div_part_lt hheight hrow)
  obtain ⟨item, hitem, h⟩ : ∃ item ∈ items, Sent A S p g target cell item :=
    Except.exists_of_mem_forall₂ hsent.flip hcell
  refine h.exists_readFrom hcols hp ?_ hitem
  rw [hx, hy]
  exact (exists_contains_iff hdims).mpr ⟨⟨div_part_lt hwidth hcol, div_part_lt hheight hrow⟩, rfl, rfl⟩

end Sent

/-! ### Two applications, in four blocks -/

theorem multiproofDims_fourBlocks : multiproofDims twoAppsExtended.dims fourBlocks = some fourBlocks := by decide

theorem exists_multiproof_twoApps {cell : Cell} (hcol : cell.col.toNat < 2) (hrow : cell.row.toNat < 2) :
    ∃ m, twoAppsPolynomials.multiproof (MultiScheme.atPoint 5) cell twoAppsExtended fourBlocks = .ok m := by
  have hblock := (multiproofBlock_eq_some_iff multiproofDims_fourBlocks).mpr ⟨⟨hcol, hrow⟩, rfl⟩
  obtain ⟨m, hm, -⟩ := @exists_multiproof _ _ (MultiScheme.atPoint 5) _ _ _ cell fourBlocks
    makePolynomialGrid_twoApps _ hblock fun _ _ => isSome_openMulti_five bls12381_newDomain_four ..
  exact ⟨m, hm⟩

theorem opensBlocks_twoApps : twoAppsPolynomials.OpensBlocks (MultiScheme.atPoint 5) twoAppsExtended fourBlocks := by
  intro cell hsome
  obtain ⟨block, hblock⟩ := Option.isSome_iff_exists.mp hsome
  obtain ⟨⟨hcol, hrow⟩, -⟩ := (multiproofBlock_eq_some_iff multiproofDims_fourBlocks).mp hblock
  exact exists_multiproof_twoApps hcol hrow

/-- Each of the blocks can be sent. -/
theorem exists_sent_twoApps {asked : List Cell} (hin : ∀ cell ∈ asked, cell.col.toNat < 2 ∧ cell.row.toNat < 2) :
    ∃ items, List.Forall₂ (Sent bls12381 (MultiScheme.atPoint 5) twoAppsPolynomials twoAppsExtended fourBlocks) asked
      items := by
  refine Except.exists_forall₂ fun cell hcell => ?_
  obtain ⟨m, hm⟩ := exists_multiproof_twoApps (hin cell hcell).1 (hin cell hcell).2
  obtain ⟨evalsBytes, hevals⟩ := @Except.exists_forall₂ _ _
    (fun s bytes => bls12381.toBytes s = some bytes) m.evals.flatten fun _ _ => ⟨_, rfl⟩
  obtain ⟨proofBytes, hproof⟩ : ∃ bytes, (MultiScheme.atPoint 5).proofToBytes m.proof = some bytes := ⟨_, rfl⟩
  exact ⟨((evalsBytes, proofBytes), m.block.gcellBlock), m, hm, rfl, hproof, hevals⟩

/-- All four are asked for. -/
theorem verifyMultiProof_sent_two : ∃ (items : List ProofItem) (commitmentsBytes : List (List UInt8)),
    List.Forall₂ (Sent bls12381 (MultiScheme.atPoint 5) twoAppsPolynomials twoAppsExtended fourBlocks)
      [⟨0, 0⟩, ⟨1, 1⟩, ⟨0, 1⟩, ⟨1, 0⟩] items ∧
    verifyMultiProof .checked bls12381 (MultiScheme.atPoint 5).toParsers ((MultiScheme.atPoint 5).verify availMp) items
      commitmentsBytes.flatten 4 = .ok true ∧
    ∀ row < 4, ∀ col < 4, ∃ data, ReadFrom twoAppsExtended.dims fourBlocks items ⟨⟨row, col⟩, data⟩ := by
  obtain ⟨items, hsent⟩ := @exists_sent_twoApps [⟨0, 0⟩, ⟨1, 1⟩, ⟨0, 1⟩, ⟨1, 0⟩] (by decide)
  obtain ⟨commitmentsBytes, hbytes⟩ := exists_commitmentsBytes_twoApps
  obtain ⟨haccept, hread⟩ := verifyMultiProof_sent (by decide) makePolynomialGrid_twoApps .checked
    multiproofDims_fourBlocks (twoAppsPolynomials.commitments_atPoint 5) hbytes hsent
  exact ⟨items, commitmentsBytes, hsent, haccept, hread (by decide)⟩

/-! ### A client -/

/-- **A client that reads all columns from an accepted batch gets the published extrinsics, or an error**, whoever sent
the batch: the extrinsics when it reads enough cells of each column, in distinct positions, and an error else. Or an
item of the batch is forged. -/
theorem reconstructExtrinsics_readFrom {A : Ark} (hA : A.HasHalves) (R : Runtime) (K : Codec AppData) (rng : Rng)
    (S : MultiScheme C P) {extrinsics : List AppExtrinsic} {minWidth maxWidth maxHeight : ℕ} {rngSeed : Seed}
    {g e : EvaluationGrid}
    (hg : EvaluationGrid.fromExtrinsics A K rng extrinsics minWidth maxWidth maxHeight rngSeed = .ok g)
    (he : g.extendColumns A ⟨extensionFactor, by decide⟩ = .ok e) (hlen : g.lookup.len.toNat * chunkSize < 2 ^ 32)
    (hcols : isPowerOfTwo e.dims.width = true) {p : PolynomialGrid} (hp : e.makePolynomialGrid A = .ok p)
    {commitments : List C} (hcommitments : p.commitments S.toCommitter = .ok commitments)
    {commitmentsBytes : List (List UInt8)}
    (hbytes : List.Forall₂ (fun c bytes => S.toBytes c = some bytes) commitments commitmentsBytes) {target : Dimensions}
    (hopens : p.OpensBlocks S e target) {b : Build} {items : List ProofItem}
    (haccept : verifyMultiProof b A S.toParsers (S.verify availMp) items commitmentsBytes.flatten e.dims.width = .ok true)
    {cells : List DataCell} (hcells : ∀ c ∈ cells, ReadFrom e.dims target items c)
    (hsome : ∀ col < g.dims.width, ∃ c ∈ cells, c.position.col = col) :
    (∃ item ∈ items, ForgedBlock A S p e target commitments item) ∨
    (EnoughOrNone g.dims cells → reconstructExtrinsics A R K g.lookup g.dims cells = .ok (groupsOf extrinsics)) ∧
    (¬ EnoughOrNone g.dims cells → ∃ error, reconstructExtrinsics A R K g.lookup g.dims cells = Run.fail error) := by
  obtain ⟨-, hcarries⟩ := EvaluationGrid.carries_of_fromExtrinsics hg
  refine (forgedBlock_or_hasCell hcols hp hcommitments hbytes hopens haccept).imp_right fun hvalue => ?_
  have hpublished := reconstructExtrinsics_published hA R hcarries he hlen (fun c hc => hvalue c (hcells c hc))
    fun col hcol => by
      obtain ⟨c, hc, rfl⟩ := hsome col hcol
      exact inColumn_ne_nil hc
  rwa [map_fst_chunkedGroups] at hpublished

/-- The positions of two of the four blocks, which are half of each column. -/
def diagonalPositions : List Position := [⟨0, 0⟩, ⟨1, 0⟩, ⟨0, 1⟩, ⟨1, 1⟩, ⟨2, 2⟩, ⟨3, 2⟩, ⟨2, 3⟩, ⟨3, 3⟩]

/-- What nodes send is read in any positions of its blocks. -/
theorem exists_cells_readFrom {asked : List Cell} {items : List ProofItem}
    (hsent : List.Forall₂ (Sent bls12381 (MultiScheme.atPoint 5) twoAppsPolynomials twoAppsExtended fourBlocks) asked
      items)
    {positions : List Position} (hin : ∀ p ∈ positions, (p.row < 4 ∧ p.col < 4) ∧
      ∃ cell ∈ asked, cell.col.toNat = p.col / 2 ∧ cell.row.toNat = p.row / 2) :
    ∃ cells : List DataCell, cells.map DataCell.position = positions ∧
      ∀ c ∈ cells, ReadFrom twoAppsExtended.dims fourBlocks items c := by
  have hread : ∀ p ∈ positions, ∃ c : DataCell, c.position = p ∧
      ReadFrom twoAppsExtended.dims fourBlocks items c := by
    intro p hp
    obtain ⟨⟨hrow, hcol⟩, cell, hcell, hx, hy⟩ := hin p hp
    obtain ⟨item, hitem, h⟩ : ∃ item ∈ items, Sent bls12381 (MultiScheme.atPoint 5) twoAppsPolynomials twoAppsExtended
      fourBlocks cell item := Except.exists_of_mem_forall₂ hsent.flip hcell
    have hcontains := (exists_contains_iff multiproofDims_fourBlocks).mpr
      ⟨⟨Nat.div_lt_of_lt_mul hcol, Nat.div_lt_of_lt_mul hrow⟩, rfl, rfl⟩
    obtain ⟨data, hdata⟩ := h.exists_readFrom (by decide) makePolynomialGrid_twoApps (hx ▸ hy ▸ hcontains) hitem
    exact ⟨⟨p, data⟩, rfl, hdata⟩
  obtain ⟨cells, hcells⟩ := Except.exists_forall₂ hread
  refine ⟨cells, ?_, fun c hc => ?_⟩
  · rw [← List.forall₂_eq_eq_eq, List.forall₂_map_left_iff]
    exact (hcells.imp fun _ _ h => h.1).flip
  · obtain ⟨p, -, -, h⟩ := Except.exists_of_mem_forall₂ hcells hc
    exact h

/-- From two blocks, with rows of the data and of the extension. -/
theorem reconstructExtrinsics_readFrom_two : ∃ (items : List ProofItem) (cells : List DataCell),
    List.Forall₂ (Sent bls12381 (MultiScheme.atPoint 5) twoAppsPolynomials twoAppsExtended fourBlocks)
      [⟨1, 1⟩, ⟨0, 0⟩] items ∧
    cells.map DataCell.position = diagonalPositions ∧
    (∀ c ∈ cells, ReadFrom twoAppsExtended.dims fourBlocks items c) ∧
    reconstructExtrinsics bls12381 Runtime.plain scaleAppData twoAppsGrid.lookup twoAppsGrid.dims cells =
      .ok (groupsOf twoApps) := by
  obtain ⟨items, hsent⟩ := @exists_sent_twoApps [⟨1, 1⟩, ⟨0, 0⟩] (by decide)
  obtain ⟨cells, hpositions, hcells⟩ := @exists_cells_readFrom _ _ hsent diagonalPositions (by decide)
  obtain ⟨commitmentsBytes, hbytes⟩ := exists_commitmentsBytes_twoApps
  have haccept := verifyMultiProof_eq_true_of_sent (by decide) makePolynomialGrid_twoApps .checked
    (twoAppsPolynomials.commitments_atPoint 5) hbytes hsent
  have hsome : ∀ col < twoAppsGrid.dims.width, ∃ c ∈ cells, c.position.col = col :=
    exists_cell_of_positions hpositions (show ∀ col < 4, ∃ p ∈ diagonalPositions, p.col = col by decide)
  have hrun := reconstructExtrinsics_readFrom bls12381_hasHalves Runtime.plain scaleAppData _ (MultiScheme.atPoint 5)
    (fromExtrinsics_twoApps (List.Vector.replicate 32 0)) extendColumns_twoApps (by decide) (by decide)
    makePolynomialGrid_twoApps (twoAppsPolynomials.commitments_atPoint 5) hbytes opensBlocks_twoApps haccept hcells hsome
  exact ⟨items, cells, hsent, hpositions, hcells, (hrun.resolve_left (not_exists_forgedBlock hsent _)).1
    (enoughOrNone_of_positions (by decide) (by decide) (by decide) hpositions)⟩

end AvailCore
