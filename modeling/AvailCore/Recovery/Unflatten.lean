import AvailCore.Foundation.Chunks
import AvailCore.Foundation.Codec
import AvailCore.Recovery.Column

/-!
# From the bytes of the matrix to extrinsics

`unflatten_padded_data` of `kate/recovery/src/com.rs`, and the reader it decodes from.
The bytes of an application are cut into chunks, the last byte of each chunk is
dropped, and the extrinsics are decoded from what is left; whatever follows them is
padding.

## The model

`SparseSliceRead` is the list of its parts, and `read` returns the bytes it writes into
a buffer of the given length and the parts that stay. The decoder of `AppData` is a
`Codec`, which reads from the front of a byte string: by `sparseSliceRead_eq` that is
what the reader gives it, whatever lengths it asks for. On a 64-bit machine a `u32` is
always a `usize`.

## What is proved

`unflattenPaddedData_eq`: from chunks that hold encoded groups, in the layout of their
lengths, the groups are decoded, whatever the padding and whatever follows.
-/

namespace AvailCore

open Chunks

/-- `Vec<Vec<u8>>`: the extrinsics of an application. -/
abbrev AppData : Type := List (List UInt8)

/-- Its bytes in SCALE: vectors of vectors of bytes. -/
def scaleAppData : Codec AppData := byte.vec.vec

theorem scaleAppData_decode_nil : scaleAppData.decode [] = none := Codec.vec_decode_nil _

/-! ### The reader -/

/-- `SparseSliceRead::read`, for a buffer of `n` bytes: what it writes, and the parts that stay. It is a
recursion over the parts, where the source has a loop. -/
def sparseSliceRead : List (List UInt8) → ℕ → List UInt8 × List (List UInt8)
  | [], _ => ([], [])
  | nextPart :: parts, n =>
    if n = 0 then ([], nextPart :: parts)
    else
      let copiedLen := min nextPart.length n
      let pendingNextPart := nextPart.drop copiedLen
      if pendingNextPart.isEmpty then
        let (bytes, parts) := sparseSliceRead parts (n - copiedLen)
        (nextPart.take copiedLen ++ bytes, parts)
      else
        -- the buffer is full
        (nextPart.take copiedLen, pendingNextPart :: parts)

/-- **The reader gives the bytes of its parts, in order**, as many as fit. -/
theorem sparseSliceRead_eq (parts : List (List UInt8)) (n : ℕ) :
    (sparseSliceRead parts n).1 = parts.flatten.take n ∧
      (sparseSliceRead parts n).2.flatten = parts.flatten.drop n := by
  induction parts generalizing n with
  | nil => simp [sparseSliceRead]
  | cons nextPart parts ih =>
    by_cases hn : n = 0
    · subst hn
      simp [sparseSliceRead]
    · obtain ⟨hread, hrest⟩ := ih (n - min nextPart.length n)
      rw [sparseSliceRead, if_neg hn, List.flatten_cons, List.take_append, List.drop_append]
      by_cases hle : nextPart.length ≤ n
      · have hmin : min nextPart.length n = nextPart.length := Nat.min_eq_left hle
        rw [hmin] at hread hrest
        simp [hmin, hread, hrest, List.take_of_length_le hle, List.drop_eq_nil_of_le hle]
      · have hmin : min nextPart.length n = n := Nat.min_eq_right (by omega)
        have hne : ¬ (nextPart.drop n).isEmpty := by
          rw [List.isEmpty_iff, List.drop_eq_nil_iff]
          exact hle
        simp [hmin, hne, show n - nextPart.length = 0 by omega]

/-! ### The decoder -/

/-- `extract_encoded_extrinsic`: the chunks of the data without their last byte. -/
def extractEncodedExtrinsic (rangeData : List UInt8) : List (List UInt8) :=
  (chunksExact chunkSize rangeData).map fun chunk => chunk.take dataChunkSize

/-- The extrinsics of one range. -/
def unflattenRange (K : Codec AppData) (data : List UInt8) (app : AppId × DataLookupRange) :
    Run UnflattenError (AppId × AppData) := do
  let rangeData ← Run.slice data app.2.start.toNat app.2.end_.toNat
  let reader := extractEncodedExtrinsic rangeData
  let (extrinsic, _) ← Run.okOr .codec (K.decode reader.flatten)
  return (app.1, extrinsic)

/-- `unflatten_padded_data` -/
def unflattenPaddedData (K : Codec AppData) (ranges : List (AppId × DataLookupRange)) (data : List UInt8) :
    Run UnflattenError (List (AppId × AppData)) := do
  Run.ensure (data.length % chunkSize = 0) .invalidLen
  ranges.mapM (unflattenRange K data)

/-- In an empty range there is no vector to decode. -/
theorem unflattenRange_empty {K : Codec AppData} (hnil : K.decode [] = none) (data : List UInt8) (id : AppId) :
    unflattenRange K data (id, ⟨0, 0⟩) = Run.fail .codec := by
  have hslice : (Run.slice data (0 : UInt32).toNat (0 : UInt32).toNat : Run UnflattenError (List UInt8)) = .ok [] :=
    Run.slice_eq_ok le_rfl (Nat.zero_le _)
  have hreader : (extractEncodedExtrinsic []).flatten = [] := rfl
  rw [unflattenRange, hslice, Except.ok_bind]
  simp only [hreader, hnil, Run.okOr_none]
  rfl

theorem fst_of_unflattenRange {K : Codec AppData} {data : List UInt8} {id : AppId} {range : DataLookupRange}
    {group : AppId × AppData} (h : unflattenRange K data (id, range) = .ok group) : group.1 = id := by
  simp only [unflattenRange, Except.bind_eq_ok, Except.pure_eq_ok, Except.ok.injEq] at h
  obtain ⟨-, -, -, -, rfl⟩ := h
  rfl

/-- The chunks hold the encoded group, one byte less each, and then padding. -/
structure Holds (K : Codec AppData) (group : AppId × AppData) (chunks : List (List UInt8)) : Prop where
  length_chunk : ∀ chunk ∈ chunks, chunk.length = chunkSize
  encoded : ∃ bytes padding, K.encode group.2 = some bytes ∧
    (chunks.map fun chunk => chunk.take dataChunkSize).flatten = bytes ++ padding

/-- The chunks of each group, counted. -/
def chunkCounts (groups : List ((AppId × AppData) × List (List UInt8))) : List (AppId × ℕ) :=
  groups.map fun g => (g.1.1, g.2.length)

theorem total_chunkCounts (groups : List ((AppId × AppData) × List (List UInt8))) :
    total (chunkCounts groups) = (groups.flatMap Prod.snd).length := by
  rw [total, chunkCounts, List.length_flatMap, List.map_map]
  rfl

/-- The bytes of the chunks of all groups, counted. -/
theorem length_flatten_groups {K : Codec AppData} {groups : List ((AppId × AppData) × List (List UInt8))}
    (h : ∀ g ∈ groups, Holds K g.1 g.2) :
    ((groups.map fun g => g.2.flatten).flatten).length = total (chunkCounts groups) * chunkSize := by
  induction groups with
  | nil => rfl
  | cons g groups ih =>
    have hcounts : chunkCounts (g :: groups) = (g.1.1, g.2.length) :: chunkCounts groups := rfl
    rw [List.map_cons, List.flatten_cons, List.length_append, ih fun g hg => h g (List.mem_cons_of_mem _ hg),
      length_flatten_uniform (h g (List.mem_cons_self ..)).length_chunk, hcounts, total_cons, Nat.add_mul]

theorem extractEncodedExtrinsic_flatten {chunks : List (List UInt8)} (h : ∀ c ∈ chunks, c.length = chunkSize) :
    extractEncodedExtrinsic chunks.flatten = chunks.map fun chunk => chunk.take dataChunkSize := by
  rw [extractEncodedExtrinsic, chunksExact_flatten chunkSize_pos h]

/-- Past chunks that the data goes on with, it still goes on with the rest. -/
theorem prefix_drop_of_append {data : List UInt8} {chunks : List (List UInt8)} {rest : List UInt8} {o : ℕ}
    (hchunk : ∀ c ∈ chunks, c.length = chunkSize) (ho : o * chunkSize ≤ data.length)
    (h : chunks.flatten ++ rest <+: data.drop (o * chunkSize)) :
    (o + chunks.length) * chunkSize ≤ data.length ∧ rest <+: data.drop ((o + chunks.length) * chunkSize) := by
  have hlen : chunks.flatten.length = chunks.length * chunkSize := length_flatten_uniform hchunk
  have hle := h.length_le
  rw [List.length_append, List.length_drop, hlen] at hle
  rw [Nat.add_mul]
  refine ⟨by omega, ?_⟩
  obtain ⟨tail, htail⟩ := h
  rw [← List.drop_drop, ← htail, ← hlen, List.append_assoc, List.drop_left]
  exact List.prefix_append _ _

/-- A range of chunks that hold a group gives the group. -/
theorem unflattenRange_eq {K : Codec AppData} {data : List UInt8} {group : AppId × AppData}
    {chunks : List (List UInt8)} (h : Holds K group chunks) {o : ℕ} (hlt : (o + chunks.length) * chunkSize < 2 ^ 32)
    (hend : (o + chunks.length) * chunkSize ≤ data.length) (hdata : chunks.flatten <+: data.drop (o * chunkSize)) :
    unflattenRange K data
      (group.1, ⟨UInt32.ofNat (o * chunkSize), UInt32.ofNat ((o + chunks.length) * chunkSize)⟩) = .ok group := by
  obtain ⟨hchunk, bytes, padding, hbytes, hconcat⟩ := h
  have hstart : o * chunkSize ≤ (o + chunks.length) * chunkSize := Nat.mul_le_mul_right _ (by omega)
  have hslice : (data.drop (o * chunkSize)).take ((o + chunks.length) * chunkSize - o * chunkSize) =
      chunks.flatten := by
    rw [Nat.add_mul, Nat.add_sub_cancel_left, ← length_flatten_uniform hchunk]
    exact (List.prefix_iff_eq_take.mp hdata).symm
  rw [unflattenRange, toNat_ofNat_of_lt (lt_of_le_of_lt hstart hlt), toNat_ofNat_of_lt hlt,
    Run.slice_eq_ok hstart hend, hslice, Except.ok_bind, extractEncodedExtrinsic_flatten hchunk]
  simp only [hconcat, K.decode_encode hbytes, Run.okOr_some, Except.ok_bind]
  rfl

/-- The ranges of the layout, from a chunk on, give the groups whose chunks are there. -/
theorem mapM_unflattenRange {K : Codec AppData} {data : List UInt8}
    {groups : List ((AppId × AppData) × List (List UInt8))} (h : ∀ g ∈ groups, Holds K g.1 g.2) {o : ℕ}
    (hlt : (o + total (chunkCounts groups)) * chunkSize < 2 ^ 32)
    (hdata : ((groups.map fun g => g.2.flatten).flatten) <+: data.drop (o * chunkSize))
    (ho : o * chunkSize ≤ data.length) :
    (byteRanges chunkSize o (chunkCounts groups)).mapM (unflattenRange K data) = .ok (groups.map Prod.fst) := by
  induction groups generalizing o with
  | nil => rfl
  | cons g groups ih =>
    obtain ⟨group, chunks⟩ := g
    have hgroup : Holds K group chunks := h _ (List.mem_cons_self ..)
    have hcounts : chunkCounts ((group, chunks) :: groups) = (group.1, chunks.length) :: chunkCounts groups := rfl
    rw [hcounts, total_cons, ← Nat.add_assoc] at hlt
    rw [List.map_cons, List.flatten_cons] at hdata
    obtain ⟨hend, htail⟩ := prefix_drop_of_append hgroup.length_chunk ho hdata
    have hfits : (o + chunks.length) * chunkSize < 2 ^ 32 :=
      lt_of_le_of_lt (Nat.mul_le_mul_right _ (Nat.le_add_right ..)) hlt
    have hhead := unflattenRange_eq hgroup hfits hend ((List.prefix_append _ _).trans hdata)
    have hrest := ih (fun g hg => h g (List.mem_cons_of_mem _ hg)) hlt htail hend
    rw [hcounts, byteRanges, List.mapM_cons, hhead, Except.ok_bind, hrest]
    rfl

/-- **The groups are decoded from their chunks**, whatever bytes follow the last one. -/
theorem unflattenPaddedData_eq {K : Codec AppData} {groups : List ((AppId × AppData) × List (List UInt8))}
    (h : ∀ g ∈ groups, Holds K g.1 g.2) (hlt : total (chunkCounts groups) * chunkSize < 2 ^ 32)
    {filler : List UInt8} (hfiller : chunkSize ∣ filler.length) :
    unflattenPaddedData K (byteRanges chunkSize 0 (chunkCounts groups))
      ((groups.map fun g => g.2.flatten).flatten ++ filler) = .ok (groups.map Prod.fst) := by
  have hlen : chunkSize ∣ ((groups.map fun g => g.2.flatten).flatten ++ filler).length := by
    rw [List.length_append, length_flatten_groups h]
    exact (Nat.dvd_add_left hfiller).mpr (dvd_mul_left _ _)
  rw [unflattenPaddedData, Nat.eq_zero_of_dvd_of_lt ((Nat.dvd_mod_iff (dvd_refl _)).mpr hlen)
    (Nat.mod_lt _ chunkSize_pos)]
  exact mapM_unflattenRange h (by rwa [Nat.zero_add]) (List.prefix_append _ _) (by simp)

end AvailCore
