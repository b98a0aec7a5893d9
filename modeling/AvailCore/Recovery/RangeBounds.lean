import AvailCore.Recovery.Undetermined

/-!
# A lookup that does not fit the matrix

The lookup and the dimensions of a block come from its header, the cells from peers, and
nothing ties the ranges of the lookup to the size of the matrix. Reconstruction slices
the bytes of the matrix at the ranges, and a slice out of bounds is a panic;
`decode_app_extrinsics` asks for the positions of a range, and takes none for an
application without data.

## What is proved

A call returns when the ranges it reaches, until the first whose bytes do not decode,
are ranges of the bytes it has (`reconstruction_returns_iff`). An application whose
cells were not all found is reported as one without data exactly when its range leaves
the matrix, or its bytes a `u32` (`decodeAppExtrinsics_found_iff`).
-/

namespace AvailCore

/-- The range is one of `len` items. -/
def DataLookupRange.InBounds (range : DataLookupRange) (len : ℕ) : Prop :=
  range.start.toNat ≤ range.end_.toNat ∧ range.end_.toNat ≤ len

/-- The bytes in the range are those of extrinsics. -/
def Decodes (K : Codec AppData) (data : List UInt8) (range : DataLookupRange) : Prop :=
  (K.decode (extractEncodedExtrinsic
    ((data.drop range.start.toNat).take (range.end_.toNat - range.start.toNat))).flatten).isSome

/-- The ranges that are reached, until one does not decode, are ranges of the data. -/
def ReachedInBounds (K : Codec AppData) (data : List UInt8) : List (AppId × DataLookupRange) → Prop
  | [] => True
  | app :: apps => app.2.InBounds data.length ∧ (Decodes K data app.2 → ReachedInBounds K data apps)

theorem reachedInBounds_singleton {K : Codec AppData} {data : List UInt8} {app : AppId × DataLookupRange} :
    ReachedInBounds K data [app] ↔ app.2.InBounds data.length :=
  and_iff_left fun _ => trivial

/-! ### One range -/

theorem returns_unflattenRange {K : Codec AppData} {data : List UInt8} {app : AppId × DataLookupRange} :
    Run.Returns (unflattenRange K data app) ↔ app.2.InBounds data.length := by
  rw [unflattenRange, Run.returns_bind, Run.returns_slice, DataLookupRange.InBounds]
  refine and_iff_left fun rangeData _ => ?_
  simp only [Run.returns_bind, Run.returns_okOr, true_and]
  intro p _
  exact Run.returns_ok _

theorem exists_unflattenRange {K : Codec AppData} {data : List UInt8} {app : AppId × DataLookupRange}
    (h : app.2.InBounds data.length) : (∃ group, unflattenRange K data app = .ok group) ↔ Decodes K data app.2 := by
  rw [unflattenRange, Run.slice_eq_ok h.1 h.2, Except.ok_bind, Decodes, Option.isSome_iff_exists]
  simp only [Except.bind_eq_ok, Run.okOr_eq_ok]
  constructor
  · rintro ⟨group, p, hp, -⟩
    exact ⟨p, hp⟩
  · rintro ⟨p, hp⟩
    exact ⟨(app.1, p.1), p, hp, rfl⟩

/-- A traversal of ranges stops at the first that does not decode. -/
theorem returns_mapM_unflattenRange {K : Codec AppData} {data : List UInt8} {ranges : List (AppId × DataLookupRange)} :
    Run.Returns (ranges.mapM (unflattenRange K data)) ↔ ReachedInBounds K data ranges := by
  induction ranges with
  | nil => exact iff_of_true (Run.returns_ok []) trivial
  | cons app apps ih =>
    rw [List.mapM_cons, Run.returns_bind, returns_unflattenRange, ReachedInBounds]
    refine and_congr_right fun hbounds => ?_
    rw [← exists_unflattenRange hbounds, ← ih]
    constructor
    · rintro h ⟨group, hgroup⟩
      exact (Run.returns_bind.mp (h group hgroup)).1
    · intro h group hgroup
      exact Run.returns_bind.mpr ⟨h ⟨group, hgroup⟩, fun groups _ => Run.returns_ok _⟩

theorem returns_unflattenPaddedData {K : Codec AppData} {data : List UInt8} {ranges : List (AppId × DataLookupRange)} :
    Run.Returns (unflattenPaddedData K ranges data) ↔
      (data.length % chunkSize = 0 → ReachedInBounds K data ranges) := by
  rw [unflattenPaddedData, Run.returns_bind, ← returns_mapM_unflattenRange]
  simp only [Run.returns_ensure, Run.ensure_eq_ok, decide_eq_true_eq, true_and]
  exact ⟨fun h hlen => h () hlen, fun h _ hlen => h hlen⟩

/-! ### The matrix -/

/-- **No step of the reconstruction of the matrix panics.** -/
theorem reconstructAvailable_returns {A : Ark} (hA : A.HasHalves) (R : Runtime) (dimensions : Dimensions)
    (cells : List DataCell) : Run.Returns (reconstructAvailable A R dimensions cells) := by
  rw [reconstructAvailable, Run.returns_bind]
  refine ⟨mapCells_returns dimensions cells, fun columns _ => ?_⟩
  rw [Run.returns_bind]
  constructor
  · refine Run.returns_mapM fun col _ => ?_
    unfold columnScalars
    cases columns[col]? with
    | none => exact Run.returns_ok _
    | some column =>
      simp only [Run.returns_bind, Run.returns_ensure, true_and]
      intro _ _
      exact ⟨reconstructColumn_returns hA R _ _, fun scalars _ => Run.returns_ok _⟩
  · intro scalars _
    obtain ⟨chunks, hchunks⟩ := Except.exists_mapM fun p (_ : p ∈ dimensions.iterData) => exists_cellBytes A scalars p
    rw [hchunks]
    exact Run.returns_ok _

/-- Nor does one of the columns alone. -/
theorem reconstructColumns_returns {A : Ark} (hA : A.HasHalves) (R : Runtime)
    (T : Traversal (ℕ × Std.HashMap ℕ DataCell)) (dimensions : Dimensions) (cells : List SingleCell) :
    Run.Returns (reconstructColumns A R T dimensions cells) := by
  rw [reconstructColumns, Run.returns_bind]
  refine ⟨mapCells_returns dimensions _, fun columns _ => ?_⟩
  rw [Run.returns_bind]
  refine ⟨Run.returns_mapM fun entry _ => ?_, fun _ _ => Run.returns_ok _⟩
  simp only [reconstructedColumn, Run.returns_bind, Run.returns_ensure, true_and]
  intro _ _
  refine ⟨reconstructColumn_returns hA R _ _, fun scalars _ => ⟨?_, fun _ _ => Run.returns_ok _⟩⟩
  exact Run.returns_mapM fun _ _ => Run.returns_okOr _ _

theorem projectedRanges_returns (l : DataLookup) (k : UInt32) : Run.Returns (l.projectedRanges k) := by
  refine Run.returns_mapM fun entry _ => ?_
  rw [Run.returns_bind]
  exact ⟨Run.returns_okOr _ _, fun range _ => Run.returns_ok _⟩

/-- **Reconstruction returns exactly when the ranges it reaches are ranges of the bytes it has**: whatever fails
before is an error, and so are bytes that do not decode. -/
theorem reconstruction_returns_iff {A : Ark} (hA : A.HasHalves) (R : Runtime) (K : Codec AppData) :
    (∀ ranges data, Run.Returns (unflattenPaddedData K ranges data) ↔
      (data.length % chunkSize = 0 → ReachedInBounds K data ranges)) ∧
    (∀ lookup dimensions cells, Run.Returns (reconstructExtrinsics A R K lookup dimensions cells) ↔
      ∀ data, reconstructAvailable A R dimensions cells = .ok data →
        ∀ ranges, lookup.projectedRanges (UInt32.ofNat chunkSize) = .ok ranges → ReachedInBounds K data ranges) ∧
    ∀ index dimensions cells appId, Run.Returns (reconstructAppExtrinsics A R K index dimensions cells appId) ↔
      ∀ data, reconstructAvailable A R dimensions cells = .ok data →
        ∀ range, index.projectedRangeOf appId (UInt32.ofNat chunkSize) = some range →
          range.InBounds (dimensions.size * chunkSize) := by
  refine ⟨fun ranges data => returns_unflattenPaddedData, fun lookup dimensions cells => ?_,
    fun index dimensions cells appId => ?_⟩
  · rw [reconstructExtrinsics, Run.returns_bind]
    simp only [reconstructAvailable_returns hA R dimensions cells, true_and]
    refine forall_congr' fun data => forall_congr' fun hdata => ?_
    have hwhole : data.length % chunkSize = 0 := by rw [length_of_reconstructAvailable hdata, Nat.mul_mod_left]
    simp only [Run.returns_bind, Run.returns_mapErr, projectedRanges_returns, true_and, Run.mapErr_eq_ok,
      returns_unflattenPaddedData, hwhole, forall_const]
  · rw [reconstructAppExtrinsics, Run.returns_bind]
    simp only [reconstructAvailable_returns hA R dimensions cells, true_and]
    refine forall_congr' fun data => forall_congr' fun hdata => ?_
    simp only [Run.returns_bind, Run.returns_okOr, Run.returns_mapErr, Run.okOr_eq_ok, true_and, Except.pure_eq_ok,
      Run.returns_ok, implies_true, and_true, returns_unflattenPaddedData, reachedInBounds_singleton,
      length_of_reconstructAvailable hdata, Nat.mul_mod_left, forall_const]

theorem reconstruction_returns_iff_one :
    Run.Returns (reconstructAppExtrinsics bls12381 Runtime.plain scaleAppData ⟨[(⟨0⟩, ⟨0, 1⟩)]⟩
      ⟨⟨1, by decide⟩, ⟨1, by decide⟩⟩ [] ⟨0⟩) := by
  refine ((reconstruction_returns_iff bls12381_hasHalves Runtime.plain scaleAppData).2.2 _ _ _ _).mpr ?_
  intro data _ range hrange
  cases hrange
  exact ⟨by decide, by decide⟩

/-- Two chunks of data, and a matrix of one cell. -/
theorem reconstruction_panics :
    DataLookup.fromIdAndLenIter [(⟨0⟩, 2)] = .ok ⟨[(⟨0⟩, ⟨0, 2⟩)]⟩ ∧
    reconstructExtrinsics bls12381 Runtime.plain scaleAppData ⟨[(⟨0⟩, ⟨0, 2⟩)]⟩
      ⟨⟨1, by decide⟩, ⟨1, by decide⟩⟩ [] = .error .panic ∧
    reconstructAppExtrinsics bls12381 Runtime.plain scaleAppData ⟨[(⟨0⟩, ⟨0, 2⟩)]⟩
      ⟨⟨1, by decide⟩, ⟨1, by decide⟩⟩ [] ⟨0⟩ = .error .panic ∧
    unflattenPaddedData scaleAppData [(⟨0⟩, ⟨0, 64⟩)] (List.replicate 32 0) = .error .panic := by
  have hdata : reconstructAvailable bls12381 Runtime.plain ⟨⟨1, by decide⟩, ⟨1, by decide⟩⟩ [] =
      .ok (List.replicate 32 0) :=
    reconstructAvailable_eq_ok_iff.mpr ⟨⟨by simp, by simp⟩, [[none]], [List.replicate 32 0], rfl, rfl, rfl⟩
  have hunflatten : unflattenPaddedData scaleAppData [(⟨0⟩, ⟨0, 64⟩)] (List.replicate 32 0) = .error .panic := rfl
  refine ⟨rfl, ?_, ?_, hunflatten⟩
  · rw [reconstructExtrinsics, hdata]
    exact congrArg (Run.mapErr .dataDecodingError) hunflatten
  · have hrange : (DataLookup.mk [(⟨0⟩, ⟨0, 2⟩)]).projectedRangeOf ⟨0⟩ (UInt32.ofNat chunkSize) = some ⟨0, 64⟩ := rfl
    rw [reconstructAppExtrinsics, hdata, Except.ok_bind, hrange, Run.okOr_some, Except.ok_bind, hunflatten]
    rfl

/-! ### Without decoding -/

/-- A range projects unless its bytes are past a `u32`. -/
theorem projectedRangeOf_eq_none_iff {index : DataLookup} {appId : AppId} {range : DataLookupRange}
    (hrange : index.rangeOf appId = some range) (hne : range.start < range.end_) :
    index.projectedRangeOf appId (UInt32.ofNat chunkSize) = none ↔ ¬ range.end_.toNat * chunkSize < 2 ^ 32 := by
  rw [DataLookup.projectedRangeOf, hrange, Option.bind_some,
    DataLookupRange.project_eq_none_iff (UInt32.le_of_lt hne), not_lt]
  rfl

/-- Outside the matrix there are none, and no data. -/
theorem decodeAppExtrinsics_of_size_lt (K : Codec AppData) {index : DataLookup} {dimensions : Dimensions}
    {appId : AppId} {range : DataLookupRange} (hrange : index.rangeOf appId = some range) (cells : List DataCell)
    (hsize : dimensions.size < range.end_.toNat) : decodeAppExtrinsics K index dimensions cells appId = .ok [] := by
  have hnone : appSpecificCells index dimensions appId = none := by
    rw [Option.eq_none_iff_forall_ne_some]
    intro positions hpositions
    exact absurd ((appSpecificCells_eq_some hrange).mp hpositions).1 (not_le.mpr hsize)
  rw [decodeAppExtrinsics, hnone]
  rfl

/-- A range whose bytes are past a `u32` is decoded as none. -/
theorem decodeAppExtrinsics_of_overflow (K : Codec AppData) {index : DataLookup} {dimensions : Dimensions}
    {cells : List DataCell} {appId : AppId} {positions : List Position}
    (hpositions : appSpecificCells index dimensions appId = some positions) (hne : positions ≠ [])
    (h : Mappable dimensions cells) (hfound : ∀ p ∈ positions, p ∈ cells.map DataCell.position)
    (hproject : index.projectedRangeOf appId (UInt32.ofNat chunkSize) = none) :
    decodeAppExtrinsics K index dimensions cells appId = .ok [] := by
  have hwhole : (dataIn dimensions cells).length % chunkSize = 0 := by
    rw [(chunksOf_dataIn dimensions cells).length_data, Nat.mul_mod_left]
  rw [decodeAppExtrinsics_of_found hpositions hne h hfound, hproject, unflattenPaddedData, decide_eq_true hwhole]
  rfl

/-- **An application whose cells were not all found is without data exactly when its range does not fit**: the
defaults of the code make of a range outside the matrix, or of one whose bytes are past a `u32`, no data. -/
theorem decodeAppExtrinsics_found_iff (K : Codec AppData) {index : DataLookup} {dimensions : Dimensions}
    {cells : List DataCell} {appId : AppId} {range : DataLookupRange} (hrange : index.rangeOf appId = some range)
    (hne : range.start < range.end_) :
    ((∀ v, decodeAppExtrinsics K index dimensions cells appId = .ok v →
        ∀ i, range.start.toNat ≤ i → i < range.end_.toNat →
          dimensions.extendedDataPosition i ∈ cells.map DataCell.position) ∧
      (dimensions.size < range.end_.toNat ∨ index.projectedRangeOf appId (UInt32.ofNat chunkSize) = none →
        ∃ e, decodeAppExtrinsics K index dimensions cells appId = Run.fail e)) ↔
    range.end_.toNat ≤ dimensions.size ∧ (range.end_.toNat * chunkSize < 2 ^ 32 ∨ ¬ Mappable dimensions cells ∨
      ∃ i, range.start.toNat ≤ i ∧ i < range.end_.toNat ∧
        dimensions.extendedDataPosition i ∉ cells.map DataCell.position) := by
  have hproject := projectedRangeOf_eq_none_iff hrange hne
  have hfail : ∀ {e}, decodeAppExtrinsics K index dimensions cells appId = Run.fail e →
      ∀ v, decodeAppExtrinsics K index dimensions cells appId ≠ .ok v := by
    intro e he v hv
    rw [he] at hv
    cases hv
  rcases lt_or_ge dimensions.size range.end_.toNat with hsize | hsize
  · -- the range leaves the matrix
    refine iff_of_false (fun h => ?_) fun h => absurd h.1 (not_le.mpr hsize)
    obtain ⟨e, he⟩ := h.2 (Or.inl hsize)
    exact hfail he _ (decodeAppExtrinsics_of_size_lt K hrange cells hsize)
  obtain ⟨positions, hpositions, hnonempty, hmem⟩ := exists_appSpecificCells hrange hne hsize
  have hmissing : (∃ i, range.start.toNat ≤ i ∧ i < range.end_.toNat ∧
      dimensions.extendedDataPosition i ∉ cells.map DataCell.position) ↔
        ∃ p ∈ positions, p ∉ cells.map DataCell.position := by
    simp only [hmem]
    constructor
    · rintro ⟨i, hlo, hhi, hnot⟩
      exact ⟨_, ⟨i, hlo, hhi, rfl⟩, hnot⟩
    · rintro ⟨_, ⟨i, hlo, hhi, rfl⟩, hnot⟩
      exact ⟨i, hlo, hhi, hnot⟩
  rw [and_iff_right hsize, hmissing]
  by_cases hbad : ¬ Mappable dimensions cells ∨ ∃ p ∈ positions, p ∉ cells.map DataCell.position
  · obtain ⟨e, he⟩ := exists_decodeAppExtrinsics_fail (K := K) hpositions hnonempty hbad
    exact iff_of_true ⟨fun v hv => absurd hv (hfail he v), fun _ => ⟨e, he⟩⟩ (Or.inr hbad)
  · -- all cells are found
    rw [or_iff_left hbad]
    obtain ⟨hm, hfound⟩ := not_or.mp hbad
    rw [not_not] at hm
    push Not at hfound
    constructor
    · intro h
      by_contra hover
      have hnone := hproject.mpr hover
      obtain ⟨e, he⟩ := h.2 (Or.inr hnone)
      exact hfail he _ (decodeAppExtrinsics_of_overflow K hpositions hnonempty hm hfound hnone)
    · intro hfits
      refine ⟨fun v _ i hlo hhi => hfound _ ((hmem _).mpr ⟨i, hlo, hhi, rfl⟩), fun hover => ?_⟩
      rcases hover with hover | hover
      · exact absurd hsize (not_le.mpr hover)
      · exact absurd hfits (hproject.mp hover)

theorem decodeAppExtrinsics_found_iff_one :
    (∀ v, decodeAppExtrinsics scaleAppData ⟨[(⟨0⟩, ⟨0, 1⟩)]⟩ ⟨⟨1, by decide⟩, ⟨1, by decide⟩⟩
        [⟨⟨0, 0⟩, smallChunk 4⟩] ⟨0⟩ = .ok v →
      ∀ i, 0 ≤ i → i < 1 → (⟨i / 1 * 2, i % 1⟩ : Position) ∈ [(⟨0, 0⟩ : Position)]) ∧
    (1 < 1 ∨ (DataLookup.mk [(⟨0⟩, ⟨0, 1⟩)]).projectedRangeOf ⟨0⟩ (UInt32.ofNat chunkSize) = none →
      ∃ e, decodeAppExtrinsics scaleAppData ⟨[(⟨0⟩, ⟨0, 1⟩)]⟩ ⟨⟨1, by decide⟩, ⟨1, by decide⟩⟩
        [⟨⟨0, 0⟩, smallChunk 4⟩] ⟨0⟩ = Run.fail e) :=
  (@decodeAppExtrinsics_found_iff scaleAppData ⟨[(⟨0⟩, ⟨0, 1⟩)]⟩ ⟨⟨1, by decide⟩, ⟨1, by decide⟩⟩
    [⟨⟨0, 0⟩, smallChunk 4⟩] ⟨0⟩ ⟨0, 1⟩ rfl (by decide)).mpr ⟨by decide, Or.inl (by decide)⟩

/-- Two chunks of data, and a matrix of one cell, without any cell. -/
theorem decodeAppExtrinsics_outside :
    DataLookup.fromIdAndLenIter [(⟨0⟩, 2)] = .ok ⟨[(⟨0⟩, ⟨0, 2⟩)]⟩ ∧
    (DataLookup.mk [(⟨0⟩, ⟨0, 2⟩)]).rangeOf ⟨0⟩ = some ⟨0, 2⟩ ∧
    decodeAppExtrinsics scaleAppData ⟨[(⟨0⟩, ⟨0, 2⟩)]⟩ ⟨⟨1, by decide⟩, ⟨1, by decide⟩⟩ [] ⟨0⟩ = .ok [] :=
  ⟨rfl, rfl, rfl⟩

end AvailCore
