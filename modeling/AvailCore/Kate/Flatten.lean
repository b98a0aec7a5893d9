import AvailCore.Foundation.Grouping
import AvailCore.Kate.BlockDims
import AvailCore.Kate.Padding
import AvailCore.Recovery.Unflatten

/-!
# From extrinsics to the bytes of a block

`flatten_and_pad_block` of `kate/src/com.rs`: the extrinsics are sorted and grouped by
application, each group is encoded and padded to whole chunks of 31 bytes, each chunk is
filled up to `CHUNK_SIZE`, and what is left of the block is filled with random chunks.

## The model

The generator of random numbers is a third party's: `rng` gives the arrays it generates
from a seed, in order. Encoding a group panics when it is not possible. Debug assertions
are those of a checked `Build`.

## What is proved

`flattenAndPadBlock_roundtrip`: the bytes are as many as the dimensions say, every chunk
is a scalar's, and `unflatten_padded_data` finds the groups. A group is refused only by
its size in the block: one whose padding is not counted in a `u32` is a panic
(`padding_whole_iff`).
-/

namespace AvailCore

open Chunks Grouping

/-- `AppExtrinsic` -/
structure AppExtrinsic where
  appId : AppId
  data : List UInt8
  deriving DecidableEq, Repr

/-- The data of an extrinsic, under its application. -/
def AppExtrinsic.pair (e : AppExtrinsic) : AppId × List UInt8 := (e.appId, e.data)

/-- `Seed` -/
abbrev Seed : Type := List.Vector UInt8 32

/-- The arrays `rng.gen()` returns after `ChaChaRng::from_seed(seed)`. -/
abbrev Rng : Type := Seed → ℕ → List.Vector UInt8 dataChunkSize

/-- The groups a block holds: its applications in order of id, their extrinsics in order. -/
def groupsOf (extrinsics : List AppExtrinsic) : List (AppId × AppData) := grouped (extrinsics.map AppExtrinsic.pair)

/-- `to_bls_scalar` -/
def toBlsScalar (A : Ark) (chunk : List UInt8) : Run KateError ArkScalar :=
  if h : chunk.length = chunkSize then Run.okOr .cellLengthExceeded (A.fromBytes ⟨chunk, h⟩)
  else Run.fail .invalidChunkLength

/-- A chunk of 31 bytes, filled up, is a scalar's. -/
theorem toBlsScalar_isOk (A : Ark) {chunk : List UInt8} (h : chunk.length = dataChunkSize) :
    ∃ s, toBlsScalar A (resizeTo 0 chunkSize chunk) = .ok s := by
  have hresize : resizeTo 0 chunkSize chunk = chunk ++ [0] := by
    rw [resizeTo_of_le (h.le.trans dataChunkSize_le), h]
    rfl
  have hlen : (resizeTo 0 chunkSize chunk).length = chunkSize := length_resizeTo ..
  have hread : (A.fromBytes ⟨resizeTo 0 chunkSize chunk, hlen⟩).isSome :=
    A.fromBytes_isSome (by simp [hresize])
  obtain ⟨s, hs⟩ := Option.isSome_iff_exists.mp hread
  exact ⟨s, by rw [toBlsScalar, dif_pos hlen, hs, Run.okOr_some]⟩

/-! ### The block -/

/-- `app_extrinsics_group_by_app_id` -/
def appExtrinsicsGroupByAppId (extrinsics : List AppExtrinsic) : List (AppId × AppData) :=
  runs (extrinsics.map AppExtrinsic.pair)

/-- The layout and the chunks of a group. -/
def padGroup (K : Codec AppData) (group : AppId × AppData) :
    Run KateError ((AppId × UInt32) × List (List UInt8)) := do
  let data ← Run.unwrap (K.encode group.2)
  let chunks ← padIec97971 data
  let chunksLen ← Run.okOr .blockTooBig (u32TryFrom chunks.length)
  return ((group.1, chunksLen), chunks)

/-- `flatten_and_pad_block::<CHUNK_SIZE>` -/
def flattenAndPadBlock (b : Build) (maximumBlockSize : Bool) (K : Codec AppData) (rng : Rng) (c : ℕ)
    (maxRows maxCols : UInt32) (extrinsics : List AppExtrinsic) (rngSeed : Seed) :
    Run KateError (List (AppId × UInt32) × List UInt8 × BlockDimensions) := do
  let extrinsics := extrinsics.mergeSort fun x y => x.appId ≤ y.appId
  let padded ← (appExtrinsicsGroupByAppId extrinsics).mapM (padGroup K)
  let txLayout := padded.map Prod.fst
  let paddedBlock := (padded.flatMap fun p => p.2.map (padToChunk c)).flatten
  let paddedBlockLen ← Run.okOr .blockTooBig (u32TryFrom paddedBlock.length)
  let blockDims ← getBlockDimensions maximumBlockSize c paddedBlockLen maxRows maxCols
  Run.ensure (paddedBlock.length ≤ blockDims.size) .blockTooBig
  Run.assert (b = .wrapping ∨ (blockDims.size - paddedBlock.length) % c = 0)
  let last := (blockDims.size - paddedBlock.length) / c
  let filler := (List.range last).flatMap fun i => padWithZeroes (rng rngSeed i).val c
  return (txLayout, paddedBlock ++ filler, blockDims)

/-- Sorting and then collecting runs groups the extrinsics. -/
theorem appExtrinsicsGroupByAppId_sort (extrinsics : List AppExtrinsic) :
    appExtrinsicsGroupByAppId (extrinsics.mergeSort fun x y => x.appId ≤ y.appId) = groupsOf extrinsics := by
  have hmap : (extrinsics.mergeSort fun x y => x.appId ≤ y.appId).map AppExtrinsic.pair =
      (extrinsics.map AppExtrinsic.pair).mergeSort fun x y => x.1 ≤ y.1 :=
    List.map_mergeSort fun _ _ _ _ => rfl
  rw [appExtrinsicsGroupByAppId, hmap, groupsOf]
  exact (runs_mergeSort_isGrouping _).unique (grouped_isGrouping _)

/-- The ids of the groups increase. -/
theorem groupsOf_sorted (extrinsics : List AppExtrinsic) :
    (groupsOf extrinsics).Pairwise fun x y => x.1 < y.1 := (grouped_isGrouping _).sorted

/-- The ids of the groups are those of the extrinsics. -/
theorem mem_ids_groupsOf {extrinsics : List AppExtrinsic} {id : AppId} :
    id ∈ (groupsOf extrinsics).map Prod.fst ↔ id ∈ extrinsics.map AppExtrinsic.appId := by
  have hpair : (extrinsics.map AppExtrinsic.pair).map Prod.fst = extrinsics.map AppExtrinsic.appId := by
    rw [List.map_map]
    rfl
  rw [groupsOf, List.mem_map, ← hpair, ← valuesOf_ne_nil]
  constructor
  · rintro ⟨⟨_, vs⟩, hmem, rfl⟩
    obtain ⟨rfl, hne⟩ := ((grouped_isGrouping _).mem_iff _ _).mp hmem
    exact hne
  · intro hne
    exact ⟨(id, _), ((grouped_isGrouping _).mem_iff _ _).mpr ⟨rfl, hne⟩, rfl⟩

/-- A padded group, by the chunks it is filled up to. -/
structure PadsTo (K : Codec AppData) (group : AppId × AppData) (p : (AppId × UInt32) × List (List UInt8)) : Prop where
  id : p.1.1 = group.1
  count : p.1.2.toNat = p.2.length
  pos : 0 < p.2.length
  length_chunk : ∀ chunk ∈ p.2, chunk.length = dataChunkSize
  holds : Holds K group (p.2.map (padToChunk chunkSize))

theorem padsTo_of_padGroup {K : Codec AppData} {group : AppId × AppData}
    {p : (AppId × UInt32) × List (List UInt8)} (h : padGroup K group = .ok p)
    (hlen : ∀ bytes, K.encode group.2 = some bytes → bytes.length < 2 ^ 32 - 32) : PadsTo K group p := by
  simp only [padGroup, Except.bind_eq_ok, Run.unwrap_eq_ok, Run.okOr_eq_ok, Except.pure_eq_ok,
    Except.ok.injEq, u32TryFrom_eq_some] at h
  obtain ⟨bytes, hbytes, cs, hcs, count, hcount, rfl⟩ := h
  have hshort := hlen bytes hbytes
  obtain ⟨m, cs', hpos, -, hpad, hchunk, hflatten⟩ := @padIec97971_eq KateError bytes
    (paddedChunkCount_mul_lt (by omega))
  rw [hcs, Except.ok.injEq] at hpad
  subst hpad
  refine ⟨rfl, hcount, ?_, hchunk, ?_, bytes, List.replicate m 0, hbytes, ?_⟩
  · -- there is at least one byte of padding
    refine List.length_pos_iff.mpr fun hnil => ?_
    obtain rfl : cs = [] := hnil
    have hempty := congrArg List.length hflatten
    rw [List.flatten_nil, List.length_append, List.length_replicate, List.length_nil] at hempty
    omega
  · intro chunk hmem
    obtain ⟨c, -, rfl⟩ := List.mem_map.mp hmem
    exact length_resizeTo ..
  · rw [← hflatten, List.map_map]
    congr 1
    conv_rhs => rw [← List.map_id cs]
    refine List.map_congr_left fun c hc => ?_
    have hle : c.length ≤ chunkSize := (hchunk c hc).le.trans dataChunkSize_le
    rw [Function.comp, padToChunk, resizeTo_of_le hle, List.take_left' (hchunk c hc), id]

/-- The groups with the chunks they are filled up to. -/
def filledUp (groups : List (AppId × AppData)) (padded : List ((AppId × UInt32) × List (List UInt8))) :
    List ((AppId × AppData) × List (List UInt8)) :=
  List.zipWith (fun group p => (group, p.2.map (padToChunk chunkSize))) groups padded

section FilledUp

variable {K : Codec AppData} {groups : List (AppId × AppData)} {padded : List ((AppId × UInt32) × List (List UInt8))}
  (h : List.Forall₂ (PadsTo K) groups padded)
include h

theorem map_fst_filledUp : (filledUp groups padded).map Prod.fst = groups := by
  induction h with
  | nil => rfl
  | cons _ _ ih => exact congrArg (_ :: ·) ih

theorem holds_filledUp : ∀ g ∈ filledUp groups padded, Holds K g.1 g.2 := by
  induction h with
  | nil => simp [filledUp]
  | cons hhead _ ih =>
    intro g hg
    rcases List.mem_cons.mp hg with rfl | hg
    · exact hhead.holds
    · exact ih g hg

/-- The layout counts their chunks. -/
theorem chunkCounts_filledUp :
    chunkCounts (filledUp groups padded) = padded.map fun p => (p.1.1, p.1.2.toNat) := by
  induction h with
  | nil => rfl
  | cons hhead _ ih =>
    rw [filledUp, List.zipWith_cons_cons, chunkCounts, List.map_cons, List.map_cons, hhead.id, hhead.count,
      List.length_map]
    exact congrArg (_ :: ·) ih

/-- Their bytes are those of the block before the filler. -/
theorem flatten_filledUp : ((filledUp groups padded).map fun g => g.2.flatten).flatten =
    (padded.flatMap fun p => p.2.map (padToChunk chunkSize)).flatten := by
  induction h with
  | nil => rfl
  | cons _ _ ih =>
    rw [filledUp, List.zipWith_cons_cons, List.map_cons, List.flatten_cons, List.flatMap_cons,
      List.flatten_append]
    exact congrArg (_ ++ ·) ih

/-- The layout of groups in order of id is one that has a lookup. -/
theorem exists_layout_filledUp (hsorted : groups.Pairwise fun x y => x.1 < y.1)
    (hlt : total (chunkCounts (filledUp groups padded)) < 2 ^ 32) :
    ∃ L : Layout, L.items = chunkCounts (filledUp groups padded) ∧
      L.items = (padded.map Prod.fst).map fun x => (x.1, x.2.toNat) := by
  have hids : (chunkCounts (filledUp groups padded)).Pairwise fun x y => x.1 < y.1 := by
    rw [← map_fst_filledUp h, List.pairwise_map] at hsorted
    rw [chunkCounts, List.pairwise_map]
    exact hsorted
  have hpos : ∀ x ∈ chunkCounts (filledUp groups padded), 0 < x.2 := by
    intro x hx
    rw [chunkCounts_filledUp h] at hx
    obtain ⟨p, hp, rfl⟩ := List.mem_map.mp hx
    obtain ⟨group, -, hpad⟩ := Except.exists_of_mem_forall₂ h hp
    rw [hpad.count]
    exact hpad.pos
  have hlayout : chunkCounts (filledUp groups padded) = (padded.map Prod.fst).map fun x => (x.1, x.2.toNat) := by
    rw [chunkCounts_filledUp h, List.map_map]
    rfl
  exact ⟨⟨_, hids, hpos, hlt⟩, rfl, hlayout⟩

end FilledUp

/-- What the call returns, once the groups are padded. -/
theorem flattenAndPadBlock_eq_ok {b : Build} {maximumBlockSize : Bool} {K : Codec AppData} {rng : Rng} {c : ℕ}
    {maxRows maxCols : UInt32} {extrinsics : List AppExtrinsic} {rngSeed : Seed} {layout : List (AppId × UInt32)}
    {data : List UInt8} {dims : BlockDimensions}
    (h : flattenAndPadBlock b maximumBlockSize K rng c maxRows maxCols extrinsics rngSeed =
      .ok (layout, data, dims)) :
    ∃ padded, (groupsOf extrinsics).mapM (padGroup K) = .ok padded ∧ layout = padded.map Prod.fst ∧
      (padded.flatMap fun p => p.2.map (padToChunk c)).flatten.length < 2 ^ 32 ∧
      (padded.flatMap fun p => p.2.map (padToChunk c)).flatten.length ≤ dims.size ∧
      dims.chunkSize = UInt32.ofNat c ∧
      data = (padded.flatMap fun p => p.2.map (padToChunk c)).flatten ++
        ((List.range ((dims.size - (padded.flatMap fun p => p.2.map (padToChunk c)).flatten.length) / c)).map fun i =>
          padWithZeroes (rng rngSeed i).val c).flatten := by
  simp only [flattenAndPadBlock, appExtrinsicsGroupByAppId_sort, Except.bind_eq_ok, Run.okOr_eq_ok,
    Run.ensure_eq_ok, Except.pure_eq_ok, Except.ok.injEq, Prod.mk.injEq, decide_eq_true_eq] at h
  obtain ⟨padded, hpadded, len, hlen, dims', hdims, -, hle, -, -, rfl, rfl, rfl⟩ := h
  have hlt := len.toNat_lt
  rw [u32TryFrom_eq_some.mp hlen] at hlt
  exact ⟨padded, hpadded, rfl, hlt, hle, chunkSize_of_getBlockDimensions hdims, rfl⟩

/-- The groups are padded. -/
theorem forall₂_padsTo {K : Codec AppData} {groups : List (AppId × AppData)}
    {padded : List ((AppId × UInt32) × List (List UInt8))} (h : groups.mapM (padGroup K) = .ok padded)
    (hshort : ∀ group ∈ groups, ∀ bytes, K.encode group.2 = some bytes → bytes.length < 2 ^ 32 - 32) :
    List.Forall₂ (PadsTo K) groups padded := by
  have hall := (List.forall₂_and_left _ _).mpr ⟨hshort, Except.mapM_ok_iff.mp h⟩
  exact hall.imp fun _ _ hgroup => padsTo_of_padGroup hgroup.2 hgroup.1

/-- The chunks of a block: those of its groups, and `n` random ones. -/
def blockChunks (random : ℕ → List.Vector UInt8 dataChunkSize) (padded : List ((AppId × UInt32) × List (List UInt8)))
    (n : ℕ) : List (List UInt8) :=
  (padded.flatMap fun p => p.2.map (padToChunk chunkSize)) ++
    (List.range n).map fun i => padWithZeroes (random i).val chunkSize

/-- Each is a chunk of 31 bytes, filled up. -/
theorem exists_of_mem_blockChunks {K : Codec AppData} (random : ℕ → List.Vector UInt8 dataChunkSize) (n : ℕ)
    {groups : List (AppId × AppData)} {padded : List ((AppId × UInt32) × List (List UInt8))}
    (h : List.Forall₂ (PadsTo K) groups padded) : ∀ chunk ∈ blockChunks random padded n,
      ∃ c : List UInt8, c.length = dataChunkSize ∧ chunk = resizeTo 0 chunkSize c := by
  intro chunk hchunk
  rcases List.mem_append.mp hchunk with hchunk | hchunk
  · obtain ⟨p, hp, hchunk⟩ := List.mem_flatMap.mp hchunk
    obtain ⟨c, hc, rfl⟩ := List.mem_map.mp hchunk
    obtain ⟨group, -, hpad⟩ := Except.exists_of_mem_forall₂ h hp
    exact ⟨c, hpad.length_chunk c hc, rfl⟩
  · obtain ⟨i, -, rfl⟩ := List.mem_map.mp hchunk
    exact ⟨_, (random i).property, rfl⟩

/-- **A flattened block is decoded to its groups.** Its bytes are as many as its dimensions say, every
chunk is a scalar's, its layout has a lookup, and with its ranges the groups are found. -/
theorem flattenAndPadBlock_roundtrip (b : Build) (maximumBlockSize : Bool) (A : Ark) (K : Codec AppData) (rng : Rng)
    {maxRows maxCols : UInt32} {extrinsics : List AppExtrinsic} {rngSeed : Seed} {layout : List (AppId × UInt32)}
    {data : List UInt8} {dims : BlockDimensions}
    (hshort : ∀ group ∈ groupsOf extrinsics, ∀ bytes, K.encode group.2 = some bytes → bytes.length < 2 ^ 32 - 32)
    (h : flattenAndPadBlock b maximumBlockSize K rng chunkSize maxRows maxCols extrinsics rngSeed =
      .ok (layout, data, dims)) :
    data.length = dims.size ∧ (∀ chunk ∈ chunksExact chunkSize data, ∃ s, toBlsScalar A chunk = .ok s) ∧
      ∃ l, DataLookup.fromIdAndLenIter (layout.map fun x => (x.1, x.2.toNat)) = .ok l ∧
        ∀ r, l.projectedRanges (UInt32.ofNat chunkSize) = .ok r →
          unflattenPaddedData K r data = .ok (groupsOf extrinsics) := by
  obtain ⟨padded, hpadded, rfl, hlt, hle, hchunkSize, rfl⟩ := flattenAndPadBlock_eq_ok h
  have hpads := forall₂_padsTo hpadded hshort
  have hholds := holds_filledUp hpads
  have hcount := length_flatten_groups hholds
  rw [flatten_filledUp hpads] at hcount
  set n := (dims.size - (padded.flatMap fun p => p.2.map (padToChunk chunkSize)).flatten.length) / chunkSize with hn
  have hfilled := exists_of_mem_blockChunks (rng rngSeed) n hpads
  have hlength : ∀ chunk ∈ blockChunks (rng rngSeed) padded n, chunk.length = chunkSize := by
    intro chunk hchunk
    obtain ⟨c, -, rfl⟩ := hfilled chunk hchunk
    exact length_resizeTo ..
  have hfiller : ((List.range n).map fun i => padWithZeroes (rng rngSeed i).val chunkSize).flatten.length =
      n * chunkSize := by
    rw [length_flatten_uniform fun c hc => hlength c (List.mem_append_right _ hc), List.length_map,
      List.length_range]
  refine ⟨?_, ?_, ?_⟩
  · -- the block is a number of chunks
    have hsize : chunkSize ∣ dims.size := by
      rw [dims.size_eq, hchunkSize]
      exact dvd_mul_left _ _
    have hdvd : chunkSize ∣ dims.size - (padded.flatMap fun p => p.2.map (padToChunk chunkSize)).flatten.length := by
      rw [hcount]
      exact Nat.dvd_sub hsize (dvd_mul_left _ _)
    rw [List.length_append, hfiller, hn, Nat.div_mul_cancel hdvd]
    exact Nat.add_sub_cancel' hle
  · intro chunk hchunk
    rw [← List.flatten_append] at hchunk
    obtain ⟨c, hc, rfl⟩ := hfilled chunk (chunksExact_flatten chunkSize_pos hlength ▸ hchunk)
    exact toBlsScalar_isOk A hc
  · have htotal : total (chunkCounts (filledUp (groupsOf extrinsics) padded)) < 2 ^ 32 :=
      lt_of_le_of_lt (Nat.le_mul_of_pos_right _ chunkSize_pos) (hcount ▸ hlt)
    obtain ⟨L, hitems, hlayout⟩ := exists_layout_filledUp hpads (groupsOf_sorted extrinsics) htotal
    refine ⟨L.lookup, fromIdAndLenIter_eq_ok_iff.mpr ⟨L, hlayout, rfl⟩, ?_⟩
    intro r hr
    obtain ⟨hproject, rfl⟩ := (projectedRanges_eq_ok_iff L).mp hr
    have hdecode := @unflattenPaddedData_eq K _ hholds (hitems ▸ hproject)
      ((List.range n).map fun i => padWithZeroes (rng rngSeed i).val chunkSize).flatten
      (hfiller ▸ dvd_mul_left _ _)
    rw [flatten_filledUp hpads, map_fst_filledUp hpads, ← hitems] at hdecode
    exact hdecode

/-- One extrinsic is one group. -/
theorem groupsOf_singleton (e : AppExtrinsic) : groupsOf [e] = [(e.appId, [e.data])] := by
  simp [groupsOf, grouped, valuesOf, AppExtrinsic.pair]

/-- Extrinsics of two applications are two groups, in the order of their ids. -/
theorem groupsOf_pair {e e' : AppExtrinsic} (h : e'.appId < e.appId) :
    groupsOf [e, e'] = [(e'.appId, [e'.data]), (e.appId, [e.data])] := by
  have hne := h.ne
  refine (grouped_isGrouping _).unique ⟨by simpa using h, fun k vs => ?_⟩
  by_cases hk : e.appId = k
  · subst hk
    simp only [valuesOf, AppExtrinsic.pair, List.map_cons, List.map_nil, List.filter_cons, hne]
    grind
  · by_cases hk' : e'.appId = k
    · subst hk'
      simp only [valuesOf, AppExtrinsic.pair, List.map_cons, List.map_nil, List.filter_cons, hk]
      grind
    · simp only [valuesOf, AppExtrinsic.pair, List.map_cons, List.map_nil, List.filter_cons, hk, hk']
      grind

/-- Two applications: one extrinsic of 100 bytes, and one of a byte. -/
def twoApps : List AppExtrinsic := [⟨⟨2⟩, List.replicate 100 7⟩, ⟨⟨1⟩, [5]⟩]

/-- The chunks of the extrinsic of 100 bytes. -/
def longChunks : List (List UInt8) :=
  [4 :: 145 :: 1 :: List.replicate 28 7, List.replicate 31 7, List.replicate 31 7, List.replicate 10 7]

theorem groupsOf_twoApps : groupsOf twoApps = [(⟨1⟩, [[5]]), (⟨2⟩, [List.replicate 100 7])] :=
  groupsOf_pair (by decide)

/-- A block of two applications: a chunk, four chunks, and a filler. -/
def twoAppsBlock : List UInt8 :=
  (([4, 4, 5] :: longChunks ++ List.replicate 3 (List.replicate 31 7)).map (resizeTo 0 chunkSize)).flatten

/-- Its dimensions. -/
def twoAppsDims : BlockDimensions := ⟨2, 4, 32, 256, by decide, by decide⟩

theorem encode_longData : scaleAppData.encode [List.replicate 100 7] = some (4 :: 145 :: 1 :: List.replicate 100 7) := by
  decide +kernel

set_option maxRecDepth 4000 in
theorem flattenAndPadBlock_twoApps (seed : Seed) :
    flattenAndPadBlock .checked false scaleAppData (fun _ _ => List.Vector.replicate 31 7) chunkSize 2 4 twoApps seed =
      .ok ([(⟨1⟩, 1), (⟨2⟩, 4)], twoAppsBlock, twoAppsDims) := by
  unfold flattenAndPadBlock
  simp only [appExtrinsicsGroupByAppId_sort, groupsOf_twoApps]
  rfl

theorem length_encode_twoApps : ∀ group ∈ groupsOf twoApps, ∀ bytes, scaleAppData.encode group.2 = some bytes →
    bytes.length < 2 ^ 32 - 32 := by
  rw [groupsOf_twoApps]
  simp only [List.forall_mem_cons, encode_longData, Option.some.injEq]
  refine ⟨?_, ?_, List.forall_mem_nil _⟩
  · intro bytes hbytes
    obtain rfl : [4, 4, 5] = bytes := Option.some.inj hbytes
    decide
  · rintro _ rfl
    decide

theorem flattenAndPadBlock_roundtrip_two : twoAppsBlock.length = 256 ∧
    (∀ chunk ∈ chunksExact chunkSize twoAppsBlock, ∃ s, toBlsScalar bls12381 chunk = .ok s) ∧
    ∃ l, DataLookup.fromIdAndLenIter [(⟨1⟩, 1), (⟨2⟩, 4)] = .ok l ∧
      ∀ r, l.projectedRanges (UInt32.ofNat chunkSize) = .ok r →
        unflattenPaddedData scaleAppData r twoAppsBlock = .ok (groupsOf twoApps) := by
  exact flattenAndPadBlock_roundtrip .checked false bls12381 scaleAppData _ length_encode_twoApps
    (flattenAndPadBlock_twoApps (List.Vector.replicate 32 0))

/-- A group is padded when it is encoded, to bytes whose padding is counted. -/
theorem exists_padGroup_iff {K : Codec AppData} {group : AppId × AppData} : (∃ p, padGroup K group = .ok p) ↔
    ∃ bytes, K.encode group.2 = some bytes ∧ bytes.length < 2 ^ 32 - 4 := by
  simp only [padGroup, Except.bind_eq_ok, Run.unwrap_eq_ok, Run.okOr_eq_ok, Except.pure_eq_ok, Except.ok.injEq]
  constructor
  · intro h
    obtain ⟨_, bytes, hbytes, cs, hcs, -⟩ := h
    refine ⟨bytes, hbytes, paddedChunkCount_mul_lt_iff.mp ?_⟩
    by_contra hover
    rw [padIec97971_panics _ (not_lt.mp hover)] at hcs
    cases hcs
  · intro h
    obtain ⟨bytes, hbytes, hlt⟩ := h
    have hcounted := paddedChunkCount_mul_lt_iff.mpr hlt
    obtain ⟨_, cs, -, -, hcs, -⟩ := @padIec97971_eq KateError bytes hcounted
    have hlen : cs.length < 2 ^ 32 := by
      rw [length_of_padIec97971 hcounted hcs]
      exact (Nat.le_mul_of_pos_right _ dataChunkSize_pos).trans_lt hcounted
    exact ⟨_, bytes, hbytes, cs, hcs, _, if_pos hlen, rfl⟩

/-- No group is refused: what is not padded panics. -/
theorem padGroup_ne_fail {K : Codec AppData} {group : AppId × AppData} (e : KateError) :
    padGroup K group ≠ Run.fail e := by
  intro h
  cases hbytes : K.encode group.2 with
  | none =>
    rw [padGroup, hbytes] at h
    cases h
  | some bytes =>
    rcases Nat.lt_or_ge bytes.length (2 ^ 32 - 4) with hlt | hge
    · obtain ⟨p, hp⟩ := exists_padGroup_iff.mpr ⟨bytes, hbytes, hlt⟩
      rw [hp] at h
      cases h
    · have hover := mt paddedChunkCount_mul_lt_iff.mp (not_lt.mpr hge)
      rw [padGroup, hbytes, Run.unwrap_some, Except.ok_bind, padIec97971_panics _ (not_lt.mp hover)] at h
      cases h

/-- The chunks of a padded group are its bytes and their padding. -/
theorem whole_of_padGroup {K : Codec AppData} {group : AppId × AppData} {p : (AppId × UInt32) × List (List UInt8)}
    (h : padGroup K group = .ok p) : ∃ bytes m, K.encode group.2 = some bytes ∧ 0 < m ∧ m ≤ dataChunkSize ∧
      p.2.flatten = bytes ++ List.replicate m 0 := by
  obtain ⟨bytes, hbytes, hlt⟩ := exists_padGroup_iff.mp ⟨p, h⟩
  obtain ⟨cs, m, hpad, hpos, hle, -, hflatten⟩ := (@padsWhole_iff KateError bytes).mpr hlt
  simp only [padGroup, hbytes, Run.unwrap_some, Except.ok_bind, hpad, Except.bind_eq_ok, Except.pure_eq_ok,
    Except.ok.injEq] at h
  obtain ⟨_, -, rfl⟩ := h
  exact ⟨bytes, m, hbytes, hpos, hle, hflatten⟩

theorem returns_getBlockDimensions (maximumBlockSize : Bool) (c : ℕ) (blockSize maxRows maxCols : UInt32) :
    Run.Returns (getBlockDimensions maximumBlockSize c blockSize maxRows maxCols) := by
  simp only [getBlockDimensions, Run.returns_bind, Run.returns_ensure, Run.returns_okOr, true_and]
  intro _ _ _ _ maxDims _ _ _
  split
  · exact Run.returns_ok _
  · simp only [Run.returns_bind, Run.returns_okOr, true_and, implies_true]

/-- The call comes back, and what it returns is the chunks of each group, whole, and then a filler. -/
structure FlattensWhole (b : Build) (maximumBlockSize : Bool) (K : Codec AppData) (rng : Rng) (c : ℕ)
    (maxRows maxCols : UInt32) (extrinsics : List AppExtrinsic) (rngSeed : Seed) : Prop where
  returns : Run.Returns (flattenAndPadBlock b maximumBlockSize K rng c maxRows maxCols extrinsics rngSeed)
  whole : ∀ layout data dims,
    flattenAndPadBlock b maximumBlockSize K rng c maxRows maxCols extrinsics rngSeed = .ok (layout, data, dims) →
      ∃ css filler, data = (css.flatMap fun cs => cs.map (padToChunk c)).flatten ++ filler ∧
        List.Forall₂ (fun (group : AppId × AppData) (cs : List (List UInt8)) => ∃ bytes m,
          K.encode group.2 = some bytes ∧ 0 < m ∧ m ≤ dataChunkSize ∧ cs.flatten = bytes ++ List.replicate m 0)
          (groupsOf extrinsics) css

/-- A block is flattened when its groups can be padded. -/
theorem returns_flattenAndPadBlock_iff {b : Build} {maximumBlockSize : Bool} {K : Codec AppData} {rng : Rng} {c : ℕ}
    (hc : c < 2 ^ 32) {maxRows maxCols : UInt32} {extrinsics : List AppExtrinsic} {rngSeed : Seed} :
    Run.Returns (flattenAndPadBlock b maximumBlockSize K rng c maxRows maxCols extrinsics rngSeed) ↔
      ∀ group ∈ groupsOf extrinsics, ∃ p, padGroup K group = .ok p := by
  rw [← Run.returns_mapM_iff fun group _ => padGroup_ne_fail]
  simp only [flattenAndPadBlock, appExtrinsicsGroupByAppId_sort]
  rw [Run.returns_bind, and_iff_left_iff_imp]
  intro _ padded _
  simp only [Run.returns_bind, Run.returns_okOr, Run.returns_ensure, returns_getBlockDimensions, Run.returns_assert,
    Run.okOr_eq_ok, decide_eq_true_eq, true_and]
  intro len hlen dims hdims _ _
  refine ⟨Or.inr ?_, fun _ _ => Run.returns_ok _⟩
  -- both are numbers of chunks
  have hsize : c ∣ dims.size := by
    rw [dims.size_eq, chunkSize_of_getBlockDimensions hdims, toNat_ofNat_of_lt hc]
    exact dvd_mul_left _ _
  have hlength : ∀ chunk ∈ padded.flatMap fun p => p.2.map (padToChunk c), chunk.length = c := by
    intro chunk hchunk
    obtain ⟨p, -, hp⟩ := List.mem_flatMap.mp hchunk
    obtain ⟨chunk', -, rfl⟩ := List.mem_map.mp hp
    exact length_resizeTo ..
  rw [length_flatten_uniform hlength]
  exact Nat.mod_eq_zero_of_dvd (Nat.dvd_sub hsize (dvd_mul_left _ _))

/-- An extrinsic is not longer than its encoding. -/
theorem length_le_of_encode_singleton {data bytes : List UInt8} (h : scaleAppData.encode [data] = some bytes) :
    data.length ≤ bytes.length := by
  obtain ⟨-, items, hitems, rfl⟩ := Codec.vec_encode_eq_some.mp h
  obtain ⟨item, hitem, rest, -, rfl⟩ : ∃ item, byte.vec.encode data = some item ∧ ∃ rest, byte.vec.encodeAll [] = some rest ∧
      items = item ++ rest := by
    simpa [Codec.encodeAll, Option.bind_eq_some_iff, eq_comm] using hitems
  obtain ⟨-, xs, hxs, rfl⟩ := Codec.vec_encode_eq_some.mp hitem
  rw [encodeAll_byte, Option.some.injEq] at hxs
  subst hxs
  simp only [List.length_append]
  omega

/-- **Bytes and blocks are padded as long as the padding is counted**: past that the calls panic. -/
theorem padding_whole_iff (data : List UInt8) (b : Build) (maximumBlockSize : Bool) (K : Codec AppData) (rng : Rng)
    (c : ℕ) (maxRows maxCols : UInt32) (extrinsics : List AppExtrinsic) (rngSeed : Seed) :
    (PadsWhole KateError data ↔ data.length < 2 ^ 32 - 4) ∧
    (dataChunkSize ≤ c → c < 2 ^ 32 →
      (FlattensWhole b maximumBlockSize K rng c maxRows maxCols extrinsics rngSeed ↔
        ∀ group ∈ groupsOf extrinsics, ∃ bytes, K.encode group.2 = some bytes ∧ bytes.length < 2 ^ 32 - 4)) := by
  refine ⟨padsWhole_iff, ?_⟩
  rintro - hc
  have hreturns := @returns_flattenAndPadBlock_iff b maximumBlockSize K rng c hc
    maxRows maxCols extrinsics rngSeed
  simp only [exists_padGroup_iff] at hreturns
  constructor
  · intro h
    exact hreturns.mp h.returns
  · intro hshort
    refine ⟨hreturns.mpr hshort, fun layout data dims h => ?_⟩
    obtain ⟨padded, hpadded, -, -, -, -, rfl⟩ := flattenAndPadBlock_eq_ok h
    refine ⟨padded.map Prod.snd, _, congrArg (· ++ _) ?_, ?_⟩
    · rw [List.flatMap_map]
    · rw [List.forall₂_map_right_iff]
      exact (Except.mapM_ok_iff.mp hpadded).imp fun _ _ hp => whole_of_padGroup hp

theorem padding_whole_one : PadsWhole KateError [1, 2, 3] ∧
    FlattensWhole .checked false scaleAppData (fun _ _ => List.Vector.replicate 31 7) chunkSize 1 4 [⟨⟨0⟩, [5]⟩]
      (List.Vector.replicate 32 0) := by
  have h := padding_whole_iff [1, 2, 3] .checked false scaleAppData (fun _ _ => List.Vector.replicate 31 7) chunkSize 1 4
    [⟨⟨0⟩, [5]⟩] (List.Vector.replicate 32 0)
  refine ⟨h.1.mpr (by decide), ?_⟩
  apply (h.2 dataChunkSize_le (by decide)).mpr
  intro group hgroup
  rw [groupsOf_singleton] at hgroup
  obtain rfl := List.mem_singleton.mp hgroup
  exact ⟨[4, 4, 5], rfl, by decide⟩

/-- Four bytes less than can be counted are not padded, and a block with an extrinsic of them is not flattened. -/
theorem padding_panics :
    ¬ PadsWhole KateError (List.replicate 4294967292 0) ∧
    ¬ Run.Returns (flattenAndPadBlock .checked false scaleAppData (fun _ _ => List.Vector.replicate 31 7) chunkSize 256 256
      [⟨⟨0⟩, List.replicate 4294967292 0⟩] (List.Vector.replicate 32 0)) := by
  have hlen : (List.replicate 4294967292 (0 : UInt8)).length = 4294967292 := List.length_replicate
  generalize List.replicate 4294967292 (0 : UInt8) = data at hlen
  constructor
  · rw [padsWhole_iff, hlen]
    decide
  · rw [returns_flattenAndPadBlock_iff (by decide), groupsOf_singleton, List.forall_mem_singleton, exists_padGroup_iff]
    rintro ⟨bytes, hbytes, hlt⟩
    have hle := length_le_of_encode_singleton hbytes
    rw [hlen] at hle
    exact absurd (hle.trans_lt hlt) (by decide)

end AvailCore
