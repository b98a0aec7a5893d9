import AvailCore.Foundation.Chunks
import AvailCore.Recovery.Matrix

/-!
# Cells and their bytes

The cells of `kate/recovery/src/data.rs` that carry a proof: `SingleCell`, 80 bytes of
proof and data, and `MultiProofCell`, the scalars of a block of cells with one proof for
all of them. A multiproof cell is sent as its proof, the corners of its block and the
number of its scalars, little-endian, and then the scalars, whose limbs are big-endian.

## The model

In `fromBytes` a `usize` has 64 bits, so that the length the number of scalars asks for
does not overflow. `fromBytesAt` is the same code for any width `w`, its product modulo
`2 ^ w` (`fromBytesAt_64`). The texts of the errors are those of the source.

## What is proved

Each reader accepts exactly what the writer writes: the bytes of a block
(`GCellBlock.fromBytes_eq_ok_iff`), of a scalar (`readScalar_eq_ok_iff`), and of a cell
(`MultiProofCell.fromBytes_eq_ok_iff`). From it, `multiProofCell_bytes`: writing and
reading are inverse to each other, and a byte string is accepted when it has the length
its count asks for. `fromBytesAt_exact_iff` says which strings this length check lets
through where the product may wrap.
-/

namespace AvailCore

open Chunks

/-- `COMMITMENT_SIZE` -/
abbrev commitmentSize : ℕ := 48

/-- `<[u8; n]>::try_from(bytes)` -/
def tryIntoArray (n : ℕ) (bytes : List UInt8) : Option (List.Vector UInt8 n) :=
  if h : bytes.length = n then some ⟨bytes, h⟩ else none

theorem tryIntoArray_eq_some {n : ℕ} {bytes : List UInt8} {a : List.Vector UInt8 n} :
    tryIntoArray n bytes = some a ↔ bytes = a.val := by
  unfold tryIntoArray
  constructor
  · intro heq
    split_ifs at heq with h
    cases heq
    rfl
  · rintro rfl
    rw [dif_pos a.property]
    rfl

/-! ### One cell -/

/-- `SingleCell` -/
structure SingleCell where
  position : Position
  content : List.Vector UInt8 80

/-- `SingleCell::data` -/
def SingleCell.data (cell : SingleCell) : Chunk :=
  ⟨cell.content.val.drop commitmentSize, by rw [List.length_drop, cell.content.property]; rfl⟩

/-- `SingleCell::proof` -/
def SingleCell.proof (cell : SingleCell) : List.Vector UInt8 commitmentSize :=
  ⟨cell.content.val.take commitmentSize, by rw [List.length_take, cell.content.property]; rfl⟩

/-- A proof and a value, one after the other, are a cell's. -/
theorem exists_singleCell (position : Position) (proof : List.Vector UInt8 commitmentSize) (data : Chunk) :
    ∃ cell : SingleCell, cell.position = position ∧ cell.proof = proof ∧ cell.data = data := by
  have hlength : (proof.val ++ data.val).length = 80 := by
    rw [List.length_append, proof.property, data.property]
    rfl
  refine ⟨⟨position, ⟨proof.val ++ data.val, hlength⟩⟩, rfl, Subtype.ext ?_, Subtype.ext ?_⟩
  · exact List.take_left' proof.property
  · exact List.drop_left' proof.property

/-! ### Blocks of cells -/

/-- `GCellBlock`: the columns from `startX` to `endX`, of the rows from `startY` to `endY`. -/
structure GCellBlock where
  startX : UInt32
  startY : UInt32
  endX : UInt32
  endY : UInt32
  deriving DecidableEq, Repr

namespace GCellBlock

/-- The number of cells of a block, negative when it is turned in one direction. -/
def cells (block : GCellBlock) : ℤ :=
  (block.endX.toNat - block.startX.toNat) * (block.endY.toNat - block.startY.toNat)

/-- `GCellBlock::GCELL_BLOCK_SIZE` -/
abbrev gcellBlockSize : ℕ := 16

/-- `GCellBlock::to_bytes` -/
def toBytes (block : GCellBlock) : List UInt8 :=
  u32ToLeBytes block.startX ++ u32ToLeBytes block.startY ++ u32ToLeBytes block.endX ++ u32ToLeBytes block.endY

/-- `bytes.get(start..start + 4)`, as a number. -/
def getU32 (bytes : List UInt8) (start : ℕ) : Option UInt32 := u32FromLeBytes ((bytes.drop start).take 4)

/-- `GCellBlock::from_bytes` -/
def fromBytes (bytes : List UInt8) : Run String GCellBlock := do
  Run.ensure (bytes.length = gcellBlockSize) "GCellBlock must be exactly 16 bytes"
  let startX := getU32 bytes 0
  let startY := getU32 bytes 4
  let endX := getU32 bytes 8
  let endY := getU32 bytes 12
  match startX, startY, endX, endY with
  | some startX, some startY, some endX, some endY => return ⟨startX, startY, endX, endY⟩
  | _, _, _, _ => Run.fail "Failed to convert bytes to GCellBlock"

@[simp] theorem length_toBytes (block : GCellBlock) : block.toBytes.length = gcellBlockSize := by
  simp [toBytes]

theorem getU32_append {xs ys : List UInt8} {x : UInt32} {start : ℕ} (h : xs.length = start) :
    getU32 (xs ++ (u32ToLeBytes x ++ ys)) start = some x := by
  rw [getU32, List.drop_left' h, List.take_left' (length_u32ToLeBytes x)]
  exact u32FromLeBytes_eq_some.mpr rfl

theorem fromBytes_toBytes (block : GCellBlock) : fromBytes block.toBytes = .ok block := by
  have hlen := block.length_toBytes
  have h0 : getU32 block.toBytes 0 = some block.startX := by
    rw [toBytes, List.append_assoc, List.append_assoc]
    exact @getU32_append [] _ _ _ rfl
  have h4 : getU32 block.toBytes 4 = some block.startY := by
    rw [toBytes, List.append_assoc, List.append_assoc]
    exact getU32_append (length_u32ToLeBytes _)
  have h8 : getU32 block.toBytes 8 = some block.endX := by
    rw [toBytes, List.append_assoc]
    exact getU32_append (by simp)
  have h12 : getU32 block.toBytes 12 = some block.endY := by
    rw [toBytes, ← List.append_nil (u32ToLeBytes block.endY)]
    exact getU32_append (by simp)
  simp [fromBytes, hlen, h0, h4, h8, h12]

/-- Any 16 bytes are those of a block. -/
theorem exists_toBytes {bytes : List UInt8} (h : bytes.length = gcellBlockSize) :
    ∃ block : GCellBlock, bytes = block.toBytes := by
  obtain ⟨xs, rest, rfl, hxs, hrest⟩ := @exists_append_of_length _ bytes 4 12 h
  obtain ⟨ys, rest, rfl, hys, hrest⟩ := @exists_append_of_length _ rest 4 8 hrest
  obtain ⟨zs, ws, rfl, hzs, hws⟩ := @exists_append_of_length _ rest 4 4 hrest
  obtain ⟨startX, rfl⟩ := exists_u32ToLeBytes hxs
  obtain ⟨startY, rfl⟩ := exists_u32ToLeBytes hys
  obtain ⟨endX, rfl⟩ := exists_u32ToLeBytes hzs
  obtain ⟨endY, rfl⟩ := exists_u32ToLeBytes hws
  exact ⟨⟨startX, startY, endX, endY⟩, by simp [toBytes]⟩

/-- A block is read from its bytes, and from no others. -/
theorem fromBytes_eq_ok_iff {bytes : List UInt8} {block : GCellBlock} :
    fromBytes bytes = .ok block ↔ bytes = block.toBytes := by
  constructor
  · intro h
    have hlen : bytes.length = gcellBlockSize := by
      simp only [fromBytes, Except.bind_eq_ok, Run.ensure_eq_ok, decide_eq_true_eq] at h
      obtain ⟨-, hlen, -⟩ := h
      exact hlen
    obtain ⟨block', rfl⟩ := exists_toBytes hlen
    rw [fromBytes_toBytes, Except.ok.injEq] at h
    rw [h]
  · rintro rfl
    exact fromBytes_toBytes block

end GCellBlock

/-! ### Multiproof cells -/

/-- `[u64; 4]` -/
abbrev Limbs : Type := List.Vector UInt64 4

/-- `MultiProofCell` -/
structure MultiProofCell where
  position : Position
  scalars : List Limbs
  proof : List.Vector UInt8 commitmentSize
  gcellBlock : GCellBlock
  deriving DecidableEq

namespace MultiProofCell

/-- `MultiProofCell::PROOF_BYTE_LEN` -/
abbrev proofByteLen : ℕ := 48

/-- `MultiProofCell::SCALAR_COUNT_LEN` -/
abbrev scalarCountLen : ℕ := 4

/-- `MultiProofCell::SCALAR_BYTE_LEN` -/
abbrev scalarByteLen : ℕ := 32

/-- `MultiProofCell::LIMBS_PER_SCALAR` -/
abbrev limbsPerScalar : ℕ := 4

/-- `MultiProofCell::BYTES_PER_LIMB` -/
abbrev bytesPerLimb : ℕ := 8

/-- The bytes of a scalar: the inner loop of `MultiProofCell::data`. -/
def scalarBytes (scalar : Limbs) : List UInt8 := scalar.toList.flatMap u64ToBeBytes

/-- `MultiProofCell::data` -/
def data (cell : MultiProofCell) : List UInt8 := cell.scalars.flatMap scalarBytes

/-- `MultiProofCell::to_bytes` -/
def toBytes (cell : MultiProofCell) : List UInt8 :=
  cell.proof.val ++ cell.gcellBlock.toBytes ++ u32ToLeBytes (UInt32.ofNat cell.scalars.length) ++ cell.data

/-- The inner loop of `MultiProofCell::from_bytes`, over the limbs of a scalar. -/
def readScalar (chunk : List UInt8) : Run String Limbs :=
  (chunksExact bytesPerLimb chunk).zipIdx.foldlM (fun scalar limb =>
    if h : limb.2 < limbsPerScalar then do
      let value ← Run.okOr "Failed to decode scalar limb" (u64FromBeBytes limb.1)
      return scalar.set ⟨limb.2, h⟩ value
    else Run.fail "Too many limbs in scalar") (List.Vector.replicate limbsPerScalar 0)

/-- `MultiProofCell::from_bytes` -/
def fromBytes (position : Position) (bytes : List UInt8) : Run String MultiProofCell := do
  let minRequiredLen := proofByteLen + GCellBlock.gcellBlockSize + scalarCountLen
  Run.ensure (minRequiredLen ≤ bytes.length) "Input too short to be a valid MultiProofCell"
  let (proofBytes, rest) ← Run.splitAt bytes proofByteLen
  let proof ← Run.okOr "Invalid proof bytes" (tryIntoArray commitmentSize proofBytes)
  let (gcellBlockBytes, rest) ← Run.splitAt rest GCellBlock.gcellBlockSize
  let gcellBlock ← GCellBlock.fromBytes gcellBlockBytes
  let (scalarCountBytes, rest) ← Run.splitAt rest scalarCountLen
  let scalarCount ← Run.okOr "Failed to read scalar count" (u32FromLeBytes (scalarCountBytes.take 4))
  let expectedScalarLen := scalarCount.toNat * scalarByteLen
  Run.ensure (rest.length = expectedScalarLen) "Scalar data length mismatch"
  let scalars ← (chunksExact scalarByteLen rest).mapM readScalar
  return ⟨position, scalars, proof, gcellBlock⟩

@[simp] theorem length_scalarBytes (scalar : Limbs) : (scalarBytes scalar).length = scalarByteLen := by
  obtain ⟨limbs, hlen⟩ := scalar
  match limbs, hlen with
  | [a, b, c, d], _ => simp [scalarBytes, List.Vector.toList]

theorem readScalar_scalarBytes (scalar : Limbs) : readScalar (scalarBytes scalar) = .ok scalar := by
  obtain ⟨limbs, hlen⟩ := scalar
  match limbs, hlen with
  | [a, b, c, d], h4 =>
    have hread : ∀ x : UInt64, u64FromBeBytes (u64ToBeBytes x) = some x := fun x => u64FromBeBytes_eq_some.mpr rfl
    have hchunks : chunksExact bytesPerLimb (scalarBytes ⟨[a, b, c, d], h4⟩) =
        [u64ToBeBytes a, u64ToBeBytes b, u64ToBeBytes c, u64ToBeBytes d] := by
      have hflat : scalarBytes ⟨[a, b, c, d], h4⟩ =
          [u64ToBeBytes a, u64ToBeBytes b, u64ToBeBytes c, u64ToBeBytes d].flatten := List.flatMap_def
      rw [hflat]
      exact chunksExact_flatten (by decide) (by simp)
    rw [readScalar, hchunks]
    simp [hread]
    rfl

/-- Any 32 bytes are those of a scalar. -/
theorem exists_scalarBytes {chunk : List UInt8} (h : chunk.length = scalarByteLen) :
    ∃ scalar, chunk = scalarBytes scalar := by
  obtain ⟨as, rest, rfl, has, hrest⟩ := @exists_append_of_length _ chunk 8 24 h
  obtain ⟨bs, rest, rfl, hbs, hrest⟩ := @exists_append_of_length _ rest 8 16 hrest
  obtain ⟨cs, ds, rfl, hcs, hds⟩ := @exists_append_of_length _ rest 8 8 hrest
  obtain ⟨a, rfl⟩ := exists_u64ToBeBytes has
  obtain ⟨b, rfl⟩ := exists_u64ToBeBytes hbs
  obtain ⟨c, rfl⟩ := exists_u64ToBeBytes hcs
  obtain ⟨d, rfl⟩ := exists_u64ToBeBytes hds
  exact ⟨⟨[a, b, c, d], rfl⟩, by simp [scalarBytes, List.Vector.toList]⟩

/-- A scalar is read from its bytes, and of 32 bytes from no others. -/
theorem readScalar_eq_ok_iff {chunk : List UInt8} (h : chunk.length = scalarByteLen) {scalar : Limbs} :
    readScalar chunk = .ok scalar ↔ chunk = scalarBytes scalar := by
  obtain ⟨scalar', rfl⟩ := exists_scalarBytes h
  rw [readScalar_scalarBytes, Except.ok.injEq]
  constructor
  · rintro rfl
    rfl
  · intro heq
    have hread := readScalar_scalarBytes scalar'
    rw [heq, readScalar_scalarBytes, Except.ok.injEq] at hread
    exact hread.symm

/-- Scalars are read from their bytes, one after another, and from no others. -/
theorem mapM_readScalar_eq_ok_iff {bytes : List UInt8} {scalars : List Limbs}
    (h : bytes.length = scalars.length * scalarByteLen) :
    (chunksExact scalarByteLen bytes).mapM readScalar = .ok scalars ↔ bytes = scalars.flatMap scalarBytes := by
  have hlength : ∀ c ∈ scalars.map scalarBytes, c.length = scalarByteLen := by
    intro c hc
    obtain ⟨scalar, -, rfl⟩ := List.mem_map.mp hc
    exact length_scalarBytes scalar
  have hjoin := flatten_chunksExact_append_remainder (show 0 < scalarByteLen by decide) bytes
  have hrem : remainder scalarByteLen bytes = [] := by
    rw [← List.length_eq_zero_iff, length_remainder, h, Nat.mul_mod_left]
  rw [hrem, List.append_nil] at hjoin
  rw [Except.mapM_ok_iff, List.flatMap_def]
  constructor
  · intro hall
    have hchunks : chunksExact scalarByteLen bytes = scalars.map scalarBytes := by
      have hsame : List.Forall₂ (fun c scalar => c = scalarBytes scalar) (chunksExact scalarByteLen bytes) scalars := by
        have hand := (List.forall₂_and_left _ _).mpr ⟨fun c hc => @length_of_mem_chunksExact _ _ bytes c hc, hall⟩
        exact hand.imp fun c scalar hc => (readScalar_eq_ok_iff hc.1).mp hc.2
      exact List.forall₂_eq_eq_eq ▸ (List.forall₂_map_right_iff.mpr hsame)
    rw [← hchunks, hjoin]
  · intro heq
    rw [heq, chunksExact_flatten (by decide) hlength, List.forall₂_map_left_iff, List.forall₂_same]
    exact fun scalar _ => readScalar_scalarBytes scalar

@[simp] theorem length_data (cell : MultiProofCell) : cell.data.length = cell.scalars.length * scalarByteLen := by
  have hlength : ∀ c ∈ cell.scalars.map scalarBytes, c.length = scalarByteLen := by
    intro c hc
    obtain ⟨scalar, -, rfl⟩ := List.mem_map.mp hc
    exact length_scalarBytes scalar
  rw [data, List.flatMap_def, length_flatten_uniform hlength, List.length_map]

/-- **A cell is read from its bytes**, and from no others. -/
theorem fromBytes_eq_ok_iff {position : Position} {bytes : List UInt8} {cell : MultiProofCell} :
    fromBytes position bytes = .ok cell ↔
      cell.position = position ∧ cell.scalars.length < 2 ^ 32 ∧ bytes = cell.toBytes := by
  simp only [fromBytes, Except.bind_eq_ok, Run.ensure_eq_ok, Run.okOr_eq_ok, Except.pure_eq_ok, Except.ok.injEq,
    decide_eq_true_eq, Prod.exists, Run.splitAt_eq_ok_iff, tryIntoArray_eq_some, GCellBlock.fromBytes_eq_ok_iff,
    u32FromLeBytes_eq_some]
  constructor
  · intro h
    obtain ⟨-, -, _, rest, ⟨-, rfl⟩, proof, rfl, _, rest, ⟨-, rfl⟩, block, rfl, countBytes, rest, ⟨hfour, rfl⟩, count,
      hcount, -, hlen, scalars, hscalars, rfl⟩ := h
    rw [List.take_of_length_le hfour.le] at hcount
    have hcounts : scalars.length = count.toNat := by
      have hsplit := (Except.mapM_ok_iff.mp hscalars).length_eq
      rw [← hsplit, chunksExact, List.length_map, List.length_range, hlen]
      exact Nat.mul_div_cancel _ (by decide)
    rw [mapM_readScalar_eq_ok_iff (hcounts ▸ hlen)] at hscalars
    refine ⟨rfl, hcounts ▸ count.toNat_lt, ?_⟩
    simp [toBytes, data, hcounts, hcount, hscalars]
  · intro h
    obtain ⟨rfl, hlt, rfl⟩ := h
    have hcount : (UInt32.ofNat cell.scalars.length).toNat = cell.scalars.length := toNat_ofNat_of_lt hlt
    set count := UInt32.ofNat cell.scalars.length with hcountBytes
    have hparts : cell.toBytes =
        cell.proof.val ++ (cell.gcellBlock.toBytes ++ (u32ToLeBytes count ++ cell.data)) := by
      simp only [toBytes, List.append_assoc, hcountBytes]
    have hproof : cell.proof.val.length = commitmentSize := cell.proof.property
    refine ⟨(), ?_, cell.proof.val, _, ⟨hproof, hparts⟩, cell.proof, rfl, _, _, ⟨GCellBlock.length_toBytes _, rfl⟩,
      cell.gcellBlock, rfl, u32ToLeBytes count, cell.data, ⟨length_u32ToLeBytes count, rfl⟩, count, ?_, (), ?_,
      cell.scalars, ?_, rfl⟩
    · have hmin : 48 + 16 + 4 ≤ 48 + (16 + (4 + cell.data.length)) := by omega
      simpa only [hparts, List.length_append, hproof, GCellBlock.length_toBytes, length_u32ToLeBytes] using hmin
    · exact List.take_of_length_le (length_u32ToLeBytes count).le
    · rw [length_data, hcount]
    · exact (mapM_readScalar_eq_ok_iff cell.length_data).mpr rfl

/-- Bytes of `n` times 32 are those of `n` scalars. -/
theorem exists_flatMap_scalarBytes {bytes : List UInt8} {n : ℕ} (h : bytes.length = 32 * n) :
    ∃ scalars : List Limbs, scalars.length = n ∧ bytes = scalars.flatMap scalarBytes := by
  induction n generalizing bytes with
  | zero => exact ⟨[], rfl, List.length_eq_zero_iff.mp h⟩
  | succ n ih =>
    obtain ⟨chunk, rest, rfl, hchunk, hrest⟩ := @exists_append_of_length _ bytes 32 (32 * n) (by omega)
    obtain ⟨scalar, rfl⟩ := exists_scalarBytes hchunk
    obtain ⟨scalars, rfl, rfl⟩ := ih hrest
    exact ⟨scalar :: scalars, rfl, rfl⟩

theorem length_proof_block (cell : MultiProofCell) : (cell.proof.val ++ cell.gcellBlock.toBytes).length = 64 := by
  have hproof : cell.proof.val.length = 48 := cell.proof.property
  rw [List.length_append, hproof, GCellBlock.length_toBytes]
  rfl

theorem length_toBytes (cell : MultiProofCell) : cell.toBytes.length = 68 + 32 * cell.scalars.length := by
  have hdata : cell.data.length = cell.scalars.length * 32 := length_data cell
  rw [toBytes, List.length_append, List.length_append, length_proof_block, length_u32ToLeBytes, hdata]
  omega

/-- The count stands after the proof and the block. -/
theorem leValue_count_toBytes {cell : MultiProofCell} (h : cell.scalars.length < 2 ^ 32) :
    leValue ((cell.toBytes.drop 64).take 4) = cell.scalars.length := by
  rw [toBytes, List.append_assoc, List.drop_left' (length_proof_block cell), List.take_left' (length_u32ToLeBytes _),
    u32ToLeBytes, leValue_leBytes (UInt32.toNat_lt _), toNat_ofNat_of_lt h]

/-- The parts of a byte string that is long enough for the count to be read. -/
theorem exists_parts {bytes : List UInt8} (h : 68 ≤ bytes.length) :
    ∃ (proof : List.Vector UInt8 commitmentSize) (block : GCellBlock) (count : UInt32) (rest : List UInt8),
      bytes = proof.val ++ (block.toBytes ++ (u32ToLeBytes count ++ rest)) ∧
        leValue ((bytes.drop 64).take 4) = count.toNat ∧ bytes.length = 68 + rest.length := by
  obtain ⟨proof, rest, rfl, hproof, hrest⟩ := @exists_append_of_length _ bytes 48 (bytes.length - 48) (by omega)
  rw [List.length_append, hproof] at h
  obtain ⟨blockBytes, rest, rfl, hblock, hrest⟩ := @exists_append_of_length _ rest 16 (rest.length - 16) (by omega)
  rw [List.length_append, hblock] at h
  obtain ⟨countBytes, rest, rfl, hfour, hrest⟩ := @exists_append_of_length _ rest 4 (rest.length - 4) (by omega)
  obtain ⟨block, rfl⟩ := GCellBlock.exists_toBytes hblock
  obtain ⟨count, rfl⟩ := exists_u32ToLeBytes hfour
  have hhead : (proof ++ block.toBytes).length = 64 := by rw [List.length_append, hproof, hblock]
  refine ⟨⟨proof, hproof⟩, block, count, rest, rfl, ?_, ?_⟩
  · rw [← List.append_assoc, List.drop_left' hhead, List.take_left' hfour]
    exact leValue_leBytes count.toNat_lt
  · rw [List.length_append, List.length_append, List.length_append, hproof, hblock, hfour]
    omega

/-- **The byte strings that are accepted** are those of the length that their count asks for. -/
theorem exists_fromBytes_iff {position : Position} {bytes : List UInt8} :
    (∃ cell, fromBytes position bytes = .ok cell) ↔
      bytes.length = 68 + 32 * leValue ((bytes.drop 64).take 4) := by
  constructor
  · intro h
    obtain ⟨cell, hcell⟩ := h
    obtain ⟨-, hlt, rfl⟩ := fromBytes_eq_ok_iff.mp hcell
    rw [length_toBytes, leValue_count_toBytes hlt]
  · intro h
    obtain ⟨proof, block, count, rest, hbytes, hcount, hlen⟩ := exists_parts (h ▸ Nat.le_add_right 68 _)
    rw [hcount, hlen] at h
    obtain ⟨scalars, hscalars, rfl⟩ := exists_flatMap_scalarBytes (Nat.add_left_cancel h)
    refine ⟨⟨position, scalars, proof, block⟩, fromBytes_eq_ok_iff.mpr ⟨rfl, ?_, ?_⟩⟩
    · rw [hscalars]
      exact count.toNat_lt
    · simp [hbytes, toBytes, data, hscalars]

/-! ### The width of a `usize` -/

/-- `Vec::with_capacity(n)`, for items of `size` bytes: a panic when they are more than `isize::MAX` bytes. -/
def withCapacity {ε : Type} (w n size : ℕ) : Run ε Unit := Run.assert (n * size < 2 ^ (w - 1))

/-- `MultiProofCell::from_bytes` where a `usize` has `w` bits, and a product wraps. -/
def fromBytesAt (w : ℕ) (position : Position) (bytes : List UInt8) : Run String MultiProofCell := do
  let minRequiredLen := proofByteLen + GCellBlock.gcellBlockSize + scalarCountLen
  Run.ensure (minRequiredLen ≤ bytes.length) "Input too short to be a valid MultiProofCell"
  let (proofBytes, rest) ← Run.splitAt bytes proofByteLen
  let proof ← Run.okOr "Invalid proof bytes" (tryIntoArray commitmentSize proofBytes)
  let (gcellBlockBytes, rest) ← Run.splitAt rest GCellBlock.gcellBlockSize
  let gcellBlock ← GCellBlock.fromBytes gcellBlockBytes
  let (scalarCountBytes, rest) ← Run.splitAt rest scalarCountLen
  let scalarCount ← Run.okOr "Failed to read scalar count" (u32FromLeBytes (scalarCountBytes.take 4))
  let expectedScalarLen := scalarCount.toNat * scalarByteLen % 2 ^ w
  Run.ensure (rest.length = expectedScalarLen) "Scalar data length mismatch"
  withCapacity w scalarCount.toNat scalarByteLen
  let scalars ← (chunksExact scalarByteLen rest).mapM readScalar
  return ⟨position, scalars, proof, gcellBlock⟩

/-- With 64 bits no count is too large. -/
theorem fromBytesAt_64 (position : Position) (bytes : List UInt8) : fromBytesAt 64 position bytes = fromBytes position bytes := by
  have hmod : ∀ count : UInt32, count.toNat * scalarByteLen % 2 ^ 64 = count.toNat * scalarByteLen := by
    intro count
    have hlt : count.toNat * 32 < 2 ^ 64 := by
      have hcount := count.toNat_lt
      omega
    exact Nat.mod_eq_of_lt hlt
  have hcapacity : ∀ count : UInt32, (withCapacity 64 count.toNat scalarByteLen : Run String Unit) = .ok () := by
    intro count
    have hlt : count.toNat * 32 < 2 ^ 63 := by
      have hcount := count.toNat_lt
      omega
    exact Run.assert_eq_ok.mpr (decide_eq_true hlt)
  simp only [fromBytesAt, fromBytes, hmod, hcapacity, Except.ok_bind]

theorem splitAt_append {ε α : Type} {xs ys : List α} {n : ℕ} (h : xs.length = n) :
    (Run.splitAt (xs ++ ys) n : Run ε _) = .ok (xs, ys) := Run.splitAt_eq_ok_iff.mpr ⟨h, rfl⟩

/-- What is done once the count is read. -/
theorem fromBytesAt_parts (w : ℕ) (position : Position) (proof : List.Vector UInt8 commitmentSize) (block : GCellBlock)
    (count : UInt32) (rest : List UInt8) :
    fromBytesAt w position (proof.val ++ (block.toBytes ++ (u32ToLeBytes count ++ rest))) = (do
      Run.ensure (rest.length = count.toNat * scalarByteLen % 2 ^ w) "Scalar data length mismatch"
      withCapacity w count.toNat scalarByteLen
      let scalars ← (chunksExact scalarByteLen rest).mapM readScalar
      return ⟨position, scalars, proof, block⟩) := by
  have hproof : proof.val.length = proofByteLen := proof.property
  have hmin : proofByteLen + GCellBlock.gcellBlockSize + scalarCountLen ≤
      (proof.val ++ (block.toBytes ++ (u32ToLeBytes count ++ rest))).length := by
    rw [List.length_append, List.length_append, List.length_append, hproof, GCellBlock.length_toBytes,
      length_u32ToLeBytes]
    show 48 + 16 + 4 ≤ 48 + (16 + (4 + rest.length))
    omega
  have hcount : u32FromLeBytes ((u32ToLeBytes count).take 4) = some count := by
    rw [List.take_of_length_le (length_u32ToLeBytes count).le]
    exact u32FromLeBytes_eq_some.mpr rfl
  simp only [fromBytesAt, decide_eq_true hmin, Run.ensure_true, splitAt_append hproof, tryIntoArray_eq_some.mpr rfl,
    splitAt_append (GCellBlock.length_toBytes block), GCellBlock.fromBytes_toBytes, hcount, Except.ok_bind,
    splitAt_append (length_u32ToLeBytes count), Run.okOr_some]

/-- The length check passes. -/
def LengthChecked (w : ℕ) (bytes : List UInt8) : Prop :=
  bytes.length = 68 + 32 * leValue ((bytes.drop 64).take 4) % 2 ^ w

/-- Bytes that do not pass the check are refused. -/
theorem fromBytesAt_of_not_checked {w : ℕ} (position : Position) {bytes : List UInt8} (h : ¬ LengthChecked w bytes) :
    ∃ e, fromBytesAt w position bytes = Run.fail e := by
  by_cases hmin : 68 ≤ bytes.length
  · obtain ⟨proof, block, count, rest, rfl, hcount, hlen⟩ := exists_parts hmin
    refine ⟨"Scalar data length mismatch", ?_⟩
    have hne : rest.length ≠ count.toNat * scalarByteLen % 2 ^ w := by
      intro heq
      rw [LengthChecked, hcount, hlen, heq, Nat.mul_comm] at h
      exact h rfl
    rw [fromBytesAt_parts, decide_eq_false hne]
    rfl
  · refine ⟨"Input too short to be a valid MultiProofCell", ?_⟩
    have hshort : decide (proofByteLen + GCellBlock.gcellBlockSize + scalarCountLen ≤ bytes.length) = false :=
      decide_eq_false hmin
    rw [fromBytesAt, hshort]
    rfl

/-- Bytes that pass it are read, unless there are too many scalars for a vector. -/
theorem fromBytesAt_of_checked {w : ℕ} (position : Position) {bytes : List UInt8} (h : LengthChecked w bytes) :
    if leValue ((bytes.drop 64).take 4) * 32 < 2 ^ (w - 1) then ∃ cell, fromBytesAt w position bytes = .ok cell
    else fromBytesAt w position bytes = .error .panic := by
  have hmin : 68 ≤ bytes.length := h ▸ Nat.le_add_right 68 _
  obtain ⟨proof, block, count, rest, rfl, hcount, hlen⟩ := exists_parts hmin
  rw [LengthChecked, hcount, hlen, Nat.mul_comm] at h
  have hrest : rest.length = count.toNat * scalarByteLen % 2 ^ w := Nat.add_left_cancel h
  rw [fromBytesAt_parts, decide_eq_true hrest, hcount, Run.ensure_true, Except.ok_bind, withCapacity]
  split_ifs with hfits
  · -- the product did not wrap
    have hle : 2 ^ (w - 1) ≤ 2 ^ w := Nat.pow_le_pow_right two_pos (Nat.sub_le w 1)
    rw [Nat.mod_eq_of_lt (hfits.trans_le hle), Nat.mul_comm] at hrest
    obtain ⟨scalars, hscalars, rfl⟩ := exists_flatMap_scalarBytes hrest
    have hread : (chunksExact scalarByteLen (scalars.flatMap scalarBytes)).mapM readScalar = .ok scalars :=
      (mapM_readScalar_eq_ok_iff (by rw [hrest, hscalars, Nat.mul_comm])).mpr rfl
    have hassert : (Run.assert (decide (count.toNat * scalarByteLen < 2 ^ (w - 1))) : Run String Unit) = .ok () :=
      Run.assert_eq_ok.mpr (decide_eq_true hfits)
    refine ⟨⟨position, scalars, proof, block⟩, ?_⟩
    rw [hassert, hread]
    rfl
  · have hassert : (Run.assert (decide (count.toNat * scalarByteLen < 2 ^ (w - 1))) : Run String Unit) = .error .panic := by
      rw [decide_eq_false hfits]
      rfl
    rw [hassert]
    rfl

end MultiProofCell

/-- **Writing and reading a cell are inverse to each other**, and the strings that are read are those of
the length that their count asks for. -/
theorem multiProofCell_bytes (position : Position) :
    (∀ cell : MultiProofCell, cell.position = position → cell.scalars.length < 2 ^ 32 →
      MultiProofCell.fromBytes position cell.toBytes = .ok cell) ∧
    (∀ bytes cell, MultiProofCell.fromBytes position bytes = .ok cell → cell.toBytes = bytes) ∧
    ∀ bytes, (∃ cell, MultiProofCell.fromBytes position bytes = .ok cell) ↔
      bytes.length = 68 + 32 * leValue ((bytes.drop 64).take 4) := by
  refine ⟨?_, ?_, ?_⟩
  · intro cell hposition hlt
    exact MultiProofCell.fromBytes_eq_ok_iff.mpr ⟨hposition, hlt, rfl⟩
  · intro bytes cell h
    obtain ⟨-, -, hbytes⟩ := MultiProofCell.fromBytes_eq_ok_iff.mp h
    exact hbytes.symm
  · intro bytes
    exact MultiProofCell.exists_fromBytes_iff

/-- A cell of one scalar. -/
def oneScalarCell : MultiProofCell :=
  ⟨⟨3, 2⟩, [⟨[1, 2, 3, 4], rfl⟩], List.Vector.replicate 48 7, ⟨2, 3, 3, 4⟩⟩

theorem multiProofCell_bytes_one : MultiProofCell.fromBytes ⟨3, 2⟩ oneScalarCell.toBytes = .ok oneScalarCell ∧
    oneScalarCell.toBytes.length = 68 + 32 * leValue ((oneScalarCell.toBytes.drop 64).take 4) := by
  obtain ⟨hread, -, haccepted⟩ := multiProofCell_bytes ⟨3, 2⟩
  have hcell := hread oneScalarCell rfl (by decide)
  exact ⟨hcell, (haccepted _).mp ⟨_, hcell⟩⟩

/-- **The length check is exact on 64 bits, and on 32 bits below 2²⁷ scalars**: from there on the product wraps, a
string of another length passes, and the vector is asked for more than it can hold. -/
theorem fromBytesAt_exact_iff {w : ℕ} (hw : w = 64 ∨ w = 32) (position : Position) {bytes : List UInt8}
    (hlen : bytes.length < 2 ^ (w - 1)) :
    ((MultiProofCell.LengthChecked w bytes → bytes.length = 68 + 32 * leValue ((bytes.drop 64).take 4)) ∧
      (bytes.length ≠ 68 + 32 * leValue ((bytes.drop 64).take 4) →
        ∃ e, MultiProofCell.fromBytesAt w position bytes = Run.fail e) ∧
      MultiProofCell.fromBytesAt w position bytes ≠ .error .panic) ↔
    w = 64 ∨ leValue ((bytes.drop 64).take 4) < 2 ^ 27 ∨
      bytes.length ≠ 68 + 32 * leValue ((bytes.drop 64).take 4) % 2 ^ 32 := by
  set count := leValue ((bytes.drop 64).take 4) with hcount
  have hcount_lt : count < 2 ^ 32 := by
    refine (leValue_lt _).trans_le ?_
    exact (Nat.pow_le_pow_right (by decide) (List.length_take_le 4 _)).trans (by decide)
  by_cases hchecked : MultiProofCell.LengthChecked w bytes
  · have hrun := MultiProofCell.fromBytesAt_of_checked position hchecked
    rw [← hcount] at hrun
    rw [imp_iff_right hchecked]
    rw [MultiProofCell.LengthChecked, ← hcount] at hchecked
    have hexact_iff : bytes.length = 68 + 32 * count ↔
        w = 64 ∨ count < 2 ^ 27 ∨ bytes.length ≠ 68 + 32 * count % 2 ^ 32 := by
      rcases hw with rfl | rfl <;> omega
    rw [← hexact_iff]
    refine ⟨fun h => h.1, fun hexact => ⟨hexact, fun hne => absurd hexact hne, ?_⟩⟩
    -- a string of that length is shorter than the vector may be
    have hfits : count * 32 < 2 ^ (w - 1) := by omega
    rw [if_pos hfits] at hrun
    obtain ⟨cell, hcell⟩ := hrun
    rw [hcell]
    intro hpanic
    cases hpanic
  · obtain ⟨e, he⟩ := MultiProofCell.fromBytesAt_of_not_checked position hchecked
    refine iff_of_true ⟨fun h => absurd h hchecked, fun _ => ⟨e, he⟩, ?_⟩ ?_
    · rw [he]
      intro hpanic
      cases hpanic
    · rcases hw with rfl | rfl
      · exact Or.inl rfl
      · exact Or.inr (Or.inr hchecked)

theorem fromBytesAt_exact_iff_zeros :
    MultiProofCell.fromBytesAt 32 ⟨0, 0⟩ (List.replicate 68 0) ≠ .error .panic := by
  have hcount : leValue (((List.replicate 68 0 : List UInt8).drop 64).take 4) = 0 := by decide
  have hiff := fromBytesAt_exact_iff (Or.inr rfl) ⟨0, 0⟩
    (show (List.replicate 68 0 : List UInt8).length < 2 ^ (32 - 1) by rw [List.length_replicate]; decide)
  exact (hiff.mpr (Or.inr (Or.inl (by rw [hcount]; decide)))).2.2

/-- Zeros and a count of 2²⁷, with no scalar after it. -/
def wrappingBytes : List UInt8 := List.replicate 64 0 ++ [0, 0, 0, 8]

/-- 2²⁷ times 32 is zero in 32 bits: the check passes, and the vector is asked for 2³² bytes. -/
theorem fromBytesAt_wraps : MultiProofCell.LengthChecked 32 wrappingBytes ∧
    wrappingBytes.length ≠ 68 + 32 * leValue ((wrappingBytes.drop 64).take 4) ∧
    MultiProofCell.fromBytesAt 32 ⟨0, 0⟩ wrappingBytes = .error .panic := by
  have hcount : leValue ((wrappingBytes.drop 64).take 4) = 2 ^ 27 := by decide
  have hlength : wrappingBytes.length = 68 := rfl
  have hchecked : MultiProofCell.LengthChecked 32 wrappingBytes := by
    rw [MultiProofCell.LengthChecked, hcount, hlength]
    rfl
  have hrun := MultiProofCell.fromBytesAt_of_checked ⟨0, 0⟩ hchecked
  rw [hcount, if_neg (by decide)] at hrun
  refine ⟨hchecked, ?_, hrun⟩
  rw [hcount, hlength]
  decide

end AvailCore
