import AvailCore.Foundation.Chunks
import AvailCore.Recovery.Ark

/-!
# Padding

`pad_iec_9797_1` of `kate/src/com.rs`: at least one zero is added to bytes, up to whole
chunks of 31, and each chunk is filled up to `CHUNK_SIZE` later. `padded_len` of
`kate/src/lib.rs` is the length of all that in a formula, for fees and limits.

## The model

A length is a `u32` in both: past it the conversion, and the additions, give `u32::MAX`.
The plain operators of `padded_len` are those of a `Build`.

## What is proved

As long as the padded bytes are counted in a `u32`, the padding is what it should be, and
the formula is their number (`paddedLen_eq_padded`). From there on the length saturates
at a number that is not one of whole chunks, and the call panics
(`padIec97971_panics`).
-/

namespace AvailCore

open Chunks

/-- `padded_len_of_pad_iec_9797_1` -/
def paddedLenOfPadIec97971 (len : UInt32) : UInt32 :=
  let lenPlusOne := saturatingAdd32 len 1
  let offset := (dataChunkSize - lenPlusOne.toNat % dataChunkSize) % dataChunkSize
  let offset := (u32TryFrom offset).getD u32Max
  saturatingAdd32 lenPlusOne offset

/-- `padded_len` -/
def paddedLen {ε : Type} (b : Build) (len chunkSize : UInt32) : Run ε UInt32 := do
  let iec97971Len := paddedLenOfPadIec97971 len
  Run.assert (b = .wrapping ∨ UInt32.ofNat dataChunkSize ≤ chunkSize)
  let diffPerChunk ← b.sub chunkSize (UInt32.ofNat dataChunkSize)
  let padToChunkExtra ←
    (if diffPerChunk ≠ 0 then b.mul (iec97971Len / UInt32.ofNat dataChunkSize) diffPerChunk else .ok 0)
  b.add iec97971Len padToChunkExtra

/-- `pad_iec_9797_1`: a panic when the last chunk is not whole. -/
def padIec97971 {ε : Type} (data : List UInt8) : Run ε (List (List UInt8)) := do
  let dataLen := (u32TryFrom data.length).getD u32Max
  let paddedSize := paddedLenOfPadIec97971 dataLen
  let data := resizeTo 0 paddedSize.toNat data
  Run.assert ((chunks dataChunkSize data).all fun chunk => chunk.length = dataChunkSize)
  return chunks dataChunkSize data

/-- `pad_with_zeroes` -/
def padWithZeroes (chunk : List UInt8) (len : ℕ) : List UInt8 := resizeTo 0 len chunk

/-- `pad_to_chunk::<CHUNK_SIZE>` -/
def padToChunk (c : ℕ) (chunk : List UInt8) : List UInt8 := resizeTo 0 c chunk

/-! ### The length -/

/-- The chunks of bytes with their padding: there is room for one byte more. -/
def paddedChunkCount (len : ℕ) : ℕ := len / dataChunkSize + 1

theorem lt_paddedChunkCount_mul (len : ℕ) : len < paddedChunkCount len * dataChunkSize := by
  have hmod := Nat.mod_lt len dataChunkSize_pos
  have hdiv := Nat.div_add_mod' len dataChunkSize
  rw [paddedChunkCount, Nat.succ_mul]
  omega

theorem paddedChunkCount_mul_le (len : ℕ) : paddedChunkCount len * dataChunkSize ≤ len + dataChunkSize := by
  rw [paddedChunkCount, Nat.succ_mul]
  exact Nat.add_le_add_right (Nat.div_mul_le_self _ _) _

theorem paddedChunkCount_mul_lt {len : ℕ} (h : len < 2 ^ 32 - 31) :
    paddedChunkCount len * dataChunkSize < 2 ^ 32 := by
  have hle : paddedChunkCount len * dataChunkSize ≤ len + 31 := paddedChunkCount_mul_le len
  omega

/-- The first multiple past a length, by a remainder taken twice. -/
theorem add_offset_eq (len : ℕ) :
    len + 1 + (dataChunkSize - (len + 1) % dataChunkSize) % dataChunkSize = paddedChunkCount len * dataChunkSize := by
  show len + 1 + (31 - (len + 1) % 31) % 31 = (len / 31 + 1) * 31
  omega

theorem offset_lt (len : ℕ) : (dataChunkSize - len % dataChunkSize) % dataChunkSize < 2 ^ 32 :=
  (Nat.mod_lt _ dataChunkSize_pos).trans (by decide)

/-- Where it is a `u32`, the length is that of the chunks, and nothing saturates. -/
theorem toNat_paddedLenOfPadIec97971 {len : UInt32} (h : paddedChunkCount len.toNat * dataChunkSize < 2 ^ 32) :
    (paddedLenOfPadIec97971 len).toNat = paddedChunkCount len.toNat * dataChunkSize := by
  have hlt := lt_paddedChunkCount_mul len.toNat
  have hone : (1 : UInt32).toNat = 1 := rfl
  have hplus : (saturatingAdd32 len 1).toNat = len.toNat + 1 := by
    rw [toNat_saturatingAdd32 (by omega), hone]
  have hsum := add_offset_eq len.toNat
  dsimp only [paddedLenOfPadIec97971]
  rw [hplus, u32TryFrom, if_pos (offset_lt _), Option.getD_some, toNat_saturatingAdd32, hplus,
    toNat_ofNat_of_lt (offset_lt _), hsum]
  rw [hplus, toNat_ofNat_of_lt (offset_lt _), hsum]
  exact h

/-- Past that it is the largest `u32`, which is no multiple. -/
theorem paddedLenOfPadIec97971_saturates {len : UInt32} (h : 2 ^ 32 ≤ paddedChunkCount len.toNat * dataChunkSize) :
    paddedLenOfPadIec97971 len = u32Max := by
  have hone : (1 : UInt32).toNat = 1 := rfl
  have hlt := len.toNat_lt
  dsimp only [paddedLenOfPadIec97971]
  rw [u32TryFrom, if_pos (offset_lt _), Option.getD_some]
  apply saturatingAdd32_eq_max
  rw [toNat_ofNat_of_lt (offset_lt _)]
  rcases Nat.lt_or_ge (len.toNat + 1) (2 ^ 32) with hsmall | hlarge
  · have hsum := add_offset_eq len.toNat
    rw [toNat_saturatingAdd32 hsmall, hone, hsum]
    exact (Nat.sub_le ..).trans h
  · rw [saturatingAdd32_eq_max (by omega), toNat_u32Max]
    exact Nat.le_add_right _ _

/-! ### The chunks -/

/-- What is padded is cut into whole chunks. -/
theorem padIec97971_eq_ok (ε : Type) {data : List UInt8}
    (h : paddedChunkCount data.length * dataChunkSize < 2 ^ 32) :
    ∃ m, 0 < m ∧ m ≤ dataChunkSize ∧ data.length + m = paddedChunkCount data.length * dataChunkSize ∧
      (padIec97971 data : Run ε _) = .ok (chunks dataChunkSize (data ++ List.replicate m 0)) := by
  have hlt := lt_paddedChunkCount_mul data.length
  have hle := paddedChunkCount_mul_le data.length
  obtain ⟨m, hm⟩ := Nat.exists_eq_add_of_le hlt.le
  have hlen : (UInt32.ofNat data.length).toNat = data.length := toNat_ofNat_of_lt (hlt.trans h)
  have hpadded : (paddedLenOfPadIec97971 (UInt32.ofNat data.length)).toNat = data.length + m := by
    rw [toNat_paddedLenOfPadIec97971 (by rwa [hlen]), hlen, hm]
  have hresize : resizeTo 0 (data.length + m) data = data ++ List.replicate m 0 := by
    rw [resizeTo_of_le (by omega), Nat.add_sub_cancel_left]
  have hwhole : chunks dataChunkSize (data ++ List.replicate m 0) =
      chunksExact dataChunkSize (data ++ List.replicate m 0) := by
    apply chunks_eq_chunksExact dataChunkSize_pos
    rw [List.length_append, List.length_replicate, ← hm]
    exact dvd_mul_left _ _
  have hassert : (Run.assert ((chunks dataChunkSize (data ++ List.replicate m 0)).all fun chunk =>
      chunk.length = dataChunkSize) : Run ε Unit) = .ok () := by
    refine Run.assert_eq_ok.mpr (List.all_eq_true.mpr fun chunk hchunk => decide_eq_true ?_)
    exact length_of_mem_chunksExact (hwhole ▸ hchunk)
  refine ⟨m, by omega, by omega, hm.symm, ?_⟩
  rw [padIec97971, u32TryFrom, if_pos (hlt.trans h), Option.getD_some, hpadded, hresize, hassert]
  rfl

/-- **The padding is zeros**, at least one, and leaves whole chunks. -/
theorem padIec97971_eq {ε : Type} {data : List UInt8} (h : paddedChunkCount data.length * dataChunkSize < 2 ^ 32) :
    ∃ m cs, 0 < m ∧ m ≤ dataChunkSize ∧ (padIec97971 data : Run ε (List (List UInt8))) = .ok cs ∧
      (∀ chunk ∈ cs, chunk.length = dataChunkSize) ∧ cs.flatten = data ++ List.replicate m 0 := by
  obtain ⟨m, hpos, hle, hm, hpad⟩ := padIec97971_eq_ok ε h
  refine ⟨m, _, hpos, hle, hpad, ?_, flatten_chunks dataChunkSize_pos _⟩
  intro chunk hchunk
  rw [chunks_eq_chunksExact dataChunkSize_pos] at hchunk
  · exact length_of_mem_chunksExact hchunk
  · rw [List.length_append, List.length_replicate, hm]
    exact dvd_mul_left _ _

theorem length_of_padIec97971 {ε : Type} {data : List UInt8} (h : paddedChunkCount data.length * dataChunkSize < 2 ^ 32)
    {cs : List (List UInt8)} (hcs : (padIec97971 data : Run ε _) = .ok cs) : cs.length = paddedChunkCount data.length := by
  obtain ⟨m, -, -, hm, hpad⟩ := padIec97971_eq_ok ε h
  rw [hpad, Except.ok.injEq] at hcs
  rw [← hcs, chunks, List.length_map, List.length_range, List.length_append, List.length_replicate, hm,
    mul_add_sub_one_div dataChunkSize_pos]

/-- Beside the chunks of the data, there is one of zeros when they are all whole. -/
theorem padIec97971_chunks (ε : Type) {data : List UInt8} (h : paddedChunkCount data.length * dataChunkSize < 2 ^ 32) :
    (padIec97971 data : Run ε _) = .ok ((chunks dataChunkSize data).map (resizeTo 0 dataChunkSize) ++
      if dataChunkSize ∣ data.length then [List.replicate dataChunkSize 0] else []) := by
  obtain ⟨m, hpos, hle, hm, hpad⟩ := padIec97971_eq_ok ε h
  have hdvd : dataChunkSize ∣ data.length + m := by
    rw [hm]
    exact dvd_mul_left _ _
  rw [hpad, chunks_append_padding 0 dataChunkSize_pos hpos hle hdvd]

/-- Bytes whose padding is not counted in a `u32` are not cut into whole chunks. -/
theorem padIec97971_panics (ε : Type) {data : List UInt8}
    (h : 2 ^ 32 ≤ paddedChunkCount data.length * dataChunkSize) : (padIec97971 data : Run ε _) = .error .panic := by
  have hsize : (paddedLenOfPadIec97971 ((u32TryFrom data.length).getD u32Max)).toNat = 2 ^ 32 - 1 := by
    rw [paddedLenOfPadIec97971_saturates, toNat_u32Max]
    rw [u32TryFrom]
    split_ifs with hlt
    · rwa [Option.getD_some, toNat_ofNat_of_lt hlt]
    · rw [Option.getD_none, toNat_u32Max]
      decide
  rw [padIec97971, hsize]
  cases hall : (chunks dataChunkSize (resizeTo 0 (2 ^ 32 - 1) data)).all fun chunk => chunk.length = dataChunkSize with
  | false => rfl
  | true =>
    have hlength : ∀ chunk ∈ chunks dataChunkSize (resizeTo 0 (2 ^ 32 - 1) data), chunk.length = dataChunkSize :=
      fun chunk hchunk => of_decide_eq_true (List.all_eq_true.mp hall chunk hchunk)
    have hcount := length_flatten_uniform hlength
    rw [flatten_chunks dataChunkSize_pos, length_resizeTo] at hcount
    -- the number of bytes leaves a remainder of 3
    have hmod : (2 ^ 32 - 1) % 31 = 3 := by decide
    rw [hcount, Nat.mul_mod_left] at hmod
    exact absurd hmod (by decide)

/-- The call comes back with the chunks of the bytes and of their padding: zeros, 31 of them at most. -/
def PadsWhole (ε : Type) (data : List UInt8) : Prop :=
  ∃ cs m, (padIec97971 data : Run ε _) = .ok cs ∧ 0 < m ∧ m ≤ dataChunkSize ∧
    (∀ chunk ∈ cs, chunk.length = dataChunkSize) ∧ cs.flatten = data ++ List.replicate m 0

/-- The largest number of bytes whose padding is counted in a `u32`. -/
theorem paddedChunkCount_mul_lt_iff {len : ℕ} : paddedChunkCount len * dataChunkSize < 2 ^ 32 ↔ len < 2 ^ 32 - 4 := by
  show (len / 31 + 1) * 31 < 2 ^ 32 ↔ len < 2 ^ 32 - 4
  omega

/-- **Bytes are padded as long as the padding is counted**, and else the call panics. -/
theorem padsWhole_iff {ε : Type} {data : List UInt8} : PadsWhole ε data ↔ data.length < 2 ^ 32 - 4 := by
  rw [← paddedChunkCount_mul_lt_iff]
  constructor
  · intro h
    obtain ⟨cs, _, hpad, -⟩ := h
    by_contra hover
    rw [padIec97971_panics ε (not_lt.mp hover)] at hpad
    cases hpad
  · intro h
    obtain ⟨m, cs, hpos, hle, hpad, hwhole, hflatten⟩ := @padIec97971_eq ε data h
    exact ⟨cs, m, hpad, hpos, hle, hwhole, hflatten⟩

/-! ### The formula -/

/-- The formula multiplies the chunks by their size. -/
theorem paddedLen_eq_ok (ε : Type) (b : Build) {len chunkSize : UInt32} (hchunk : dataChunkSize ≤ chunkSize.toNat)
    (hfits : paddedChunkCount len.toNat * chunkSize.toNat < 2 ^ 32) :
    (paddedLen b len chunkSize : Run ε _) = .ok (UInt32.ofNat (paddedChunkCount len.toNat * chunkSize.toNat)) := by
  have hdata : (UInt32.ofNat dataChunkSize).toNat = dataChunkSize := rfl
  have hle : UInt32.ofNat dataChunkSize ≤ chunkSize := UInt32.le_iff_toNat_le.mpr (hdata ▸ hchunk)
  have hcount : paddedChunkCount len.toNat * dataChunkSize < 2 ^ 32 :=
    (Nat.mul_le_mul_left _ hchunk).trans_lt hfits
  have hiec := toNat_paddedLenOfPadIec97971 hcount
  have hdiff : (chunkSize - UInt32.ofNat dataChunkSize).toNat = chunkSize.toNat - dataChunkSize :=
    UInt32.toNat_sub_of_le _ _ hle
  have hsum : paddedChunkCount len.toNat * dataChunkSize + paddedChunkCount len.toNat * (chunkSize.toNat - dataChunkSize)
      = paddedChunkCount len.toNat * chunkSize.toNat := by
    rw [← Nat.mul_add, Nat.add_sub_cancel' hchunk]
  have hextra : (if chunkSize - UInt32.ofNat dataChunkSize ≠ 0
      then b.mul (paddedLenOfPadIec97971 len / UInt32.ofNat dataChunkSize) (chunkSize - UInt32.ofNat dataChunkSize)
      else .ok 0 : Run ε _) =
        .ok (UInt32.ofNat (paddedChunkCount len.toNat * (chunkSize.toNat - dataChunkSize))) := by
    have hcountDiv : (paddedLenOfPadIec97971 len / UInt32.ofNat dataChunkSize).toNat = paddedChunkCount len.toNat := by
      rw [UInt32.toNat_div, hiec, hdata, Nat.mul_div_cancel _ dataChunkSize_pos]
    split_ifs with hne
    · rw [Build.mul_eq_ok, hcountDiv, hdiff]
      rw [hcountDiv, hdiff]
      omega
    · rw [← hdiff, not_not.mp hne]
      rfl
  have hadd := @Build.add_eq_ok ε b (paddedLenOfPadIec97971 len)
    (UInt32.ofNat (paddedChunkCount len.toNat * (chunkSize.toNat - dataChunkSize)))
  rw [hiec, toNat_ofNat_of_lt (by omega), hsum] at hadd
  rw [paddedLen, decide_eq_true (Or.inr hle)]
  simp only [Build.sub_of_le b hle, hextra, Except.ok_bind]
  exact hadd hfits

/-- **The formula is the number of bytes** that padding makes, for every build, and nothing overflows or saturates. -/
theorem paddedLen_eq_padded (ε : Type) {data : List UInt8} {len chunkSize : UInt32} (hlen : len.toNat = data.length)
    (hchunk : dataChunkSize ≤ chunkSize.toNat) (hfits : (len.toNat / dataChunkSize + 1) * chunkSize.toNat < 2 ^ 32) :
    ∃ n cs, n.toNat = (len.toNat / dataChunkSize + 1) * chunkSize.toNat ∧
      (∀ b, (paddedLen b len chunkSize : Run ε _) = .ok n) ∧
      (padIec97971 data : Run ε _) = .ok cs ∧ (cs.map (padToChunk chunkSize.toNat)).flatten.length = n.toNat ∧
      (paddedLenOfPadIec97971 len).toNat =
        len.toNat + 1 + (dataChunkSize - (len.toNat + 1) % dataChunkSize) % dataChunkSize := by
  have hcount : paddedChunkCount len.toNat * dataChunkSize < 2 ^ 32 :=
    (Nat.mul_le_mul_left _ hchunk).trans_lt hfits
  obtain ⟨_, cs, -, -, hpad, -⟩ := @padIec97971_eq ε data (hlen ▸ hcount)
  have hcs := length_of_padIec97971 (hlen ▸ hcount) hpad
  rw [← hlen] at hcs
  refine ⟨_, cs, toNat_ofNat_of_lt hfits, fun b => paddedLen_eq_ok ε b hchunk hfits, hpad, ?_, ?_⟩
  · have hfilled : ∀ chunk ∈ cs.map (padToChunk chunkSize.toNat), chunk.length = chunkSize.toNat := by
      intro chunk hmem
      obtain ⟨c, -, rfl⟩ := List.mem_map.mp hmem
      exact length_resizeTo ..
    rw [length_flatten_uniform hfilled, List.length_map, hcs, toNat_ofNat_of_lt hfits]
    rfl
  · rw [toNat_paddedLenOfPadIec97971 hcount, add_offset_eq]

theorem paddedLen_eq_padded_three : ∃ n cs, n.toNat = 32 ∧
    (∀ b, (paddedLen b 3 32 : Run Empty _) = .ok n) ∧ (padIec97971 [1, 2, 3] : Run Empty _) = .ok cs ∧
    (cs.map (padToChunk 32)).flatten.length = n.toNat ∧ (paddedLenOfPadIec97971 3).toNat = 3 + 1 + (31 - 4 % 31) % 31 :=
  @paddedLen_eq_padded Empty [1, 2, 3] 3 32 rfl (by decide) (by decide)

end AvailCore
