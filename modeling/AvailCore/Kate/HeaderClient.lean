import AvailCore.Core.Header
import AvailCore.Kate.VerifiedRows

/-!
# A client that has a header

What a light client knows of a block is its header, which it has from other nodes. The lookup,
the dimensions and the commitments are all decoded from it: the lookup from its compact form, the
dimensions from `rows` and `cols`, and the commitments by `from_slice`.

## The model

The header of a block has the lookup and the dimensions of its grid, and the commitments to the
rows of the extension (`HeaderOf`). Any number of nodes send it on, each of which decodes it and
encodes it again.

## What is proved

The bytes of such a header are the same after any number of nodes (`forwarded_of_layout`), though
the lookup that they are decoded to may have an empty range more than the grid's. And it is all
that is needed: cells that verify against what is decoded give the extrinsics of an application,
unless one of them is forged (`decodeAppExtrinsics_forwarded`).
-/

namespace AvailCore

open DataLookup CompactDataLookup

/-! ### The lookup of a block -/

/-- An empty range for `AppId(0)` in front is not sent on. -/
theorem fromDataLookup_phantom {l : DataLookup} (hne : l.index ≠ []) :
    fromDataLookup ⟨(⟨0⟩, ⟨0, 0⟩) :: l.index⟩ = fromDataLookup l := by
  obtain ⟨x, xs, hx⟩ := List.exists_cons_of_ne_nil hne
  simp only [fromDataLookup, DataLookup.isError, DataLookup.isEmpty, DataLookup.len, hx, List.getLast?_cons_cons,
    List.isEmpty_cons, List.filter_cons, ne_eq, not_true_eq_false, decide_false, Bool.false_eq_true, if_false]

namespace Layout

variable (L : Layout) (h : total L.items ≠ 2 ^ 32 - 1)
include h

/-- The compact form of a layout is sent on as it is. -/
theorem relay_fromDataLookup : (fromDataLookup L.lookup).relay = .ok (fromDataLookup L.lookup) := by
  rw [relay, L.tryFrom_fromDataLookup h, Except.ok_bind, Except.pure_eq_ok, Except.ok.injEq]
  split_ifs with hfirst
  · rfl
  · refine fromDataLookup_phantom fun hnil => hfirst ?_
    have hitems : L.items = [] := by
      rw [← List.map_eq_nil_iff (f := Prod.fst), ← map_fst_ranges 0 L.items]
      exact List.map_eq_nil_iff.mpr hnil
    simp [hitems]

/-- What it is decoded to has the same range for each application, or an empty one where there is none. -/
theorem exists_tryFrom_sameRange : ∃ r, tryFrom (fromDataLookup L.lookup) = .ok r ∧ ∀ id, SameRange L.lookup r id := by
  refine ⟨_, L.tryFrom_fromDataLookup h, fun id => ?_⟩
  split_ifs with hfirst
  · exact Or.inl rfl
  · apply sameRange_phantom
    rw [Layout.lookup, map_fst_ranges]
    exact L.zero_notMem_ids hfirst

variable {N Out Digest : Type} {H : HeaderCodecs N Out Digest} {header : Header N Out Digest} {bytes : List UInt8}

/-- **The bytes of a header with such a lookup stay as they are.** -/
theorem forwarded_of_layout (hlookup : header.extension.appLookup = L.lookup) (hbytes : header.encode H = some bytes)
    (n : ℕ) (rest : List UInt8) : forwarded H n (bytes ++ rest) = .ok (bytes ++ rest) := by
  have herr : (fromDataLookup L.lookup).isError = false := by
    rw [← Bool.not_eq_true, L.isError_fromDataLookup]
    exact h
  rw [Header.encode_eq, hlookup] at hbytes
  exact (forwarded_eq_ok_iff hbytes herr n).mpr
    ⟨_, bytes, relayed_of_relay_eq (L.relay_fromDataLookup h) n, hbytes, rfl⟩

end Layout

/-! ### A client -/

/-- The header of a block: with the lookup and the dimensions of a grid, and with these commitments. -/
structure HeaderOf {N Out Digest : Type} (header : Header N Out Digest) (g : EvaluationGrid)
    (published : List (List UInt8)) : Prop where
  lookup : header.extension.appLookup = g.lookup
  rows : header.extension.rows.toNat = g.dims.height
  cols : header.extension.cols.toNat = g.dims.width
  commitment : header.extension.commitment.commitment = published.flatten

/-- The dimensions and the commitments that a client gets from a header. -/
structure DecodedAs {N Out Digest : Type} (header : Header N Out Digest) (d : Dimensions)
    (commitments : List (List.Vector UInt8 commitmentSize)) : Prop where
  dims : Dimensions.newFrom header.extension.rows.toNat header.extension.cols.toNat = some d
  commitments : fromSlice header.extension.commitment.commitment = .ok commitments

/-- From the header of a grid a client gets its dimensions and the commitments to its rows. -/
theorem exists_decodedAs {N Out Digest C P : Type} {A : Ark} {S : Scheme C P} {header : Header N Out Digest}
    {g e : EvaluationGrid} {published : List (List UInt8)} (h : HeaderOf header g published)
    (hcommit : e.commitmentsBytes A S.toCommitter = .ok published) (l : DataLookup) :
    ∃ commitments, DecodedAs (header.withLookup l) g.dims commitments ∧
      (commitments.map fun c => c.val) = published := by
  obtain ⟨commitments, hslice, hmap⟩ := exists_fromSlice hcommit
  refine ⟨commitments, ⟨?_, ?_⟩, hmap⟩
  · exact Dimensions.newFrom_eq_some.mpr ⟨h.rows.symm, h.cols.symm⟩
  · rw [← hslice, ← h.commitment]
    rfl

/-- **The header is all that is needed.** After any number of nodes a client has the bytes of the header that was
published, and from it the lookup, the dimensions and the commitments; cells that verify against these, whoever sent
them, in all positions of an application give its extrinsics, or one of them is forged. -/
theorem decodeAppExtrinsics_forwarded {C P : Type} {A : Ark} (K : Codec AppData) (rng : Rng) (S : CellScheme C P)
    {extrinsics : List AppExtrinsic} {minWidth maxWidth maxHeight : ℕ} {rngSeed : Seed} {g e : EvaluationGrid}
    (hg : EvaluationGrid.fromExtrinsics A K rng extrinsics minWidth maxWidth maxHeight rngSeed = .ok g)
    (he : g.extendColumns A ⟨extensionFactor, by decide⟩ = .ok e) (hlen : g.lookup.len.toNat * chunkSize < 2 ^ 32)
    {published : List (List UInt8)} (hcommit : e.commitmentsBytes A S.toCommitter = .ok published)
    (hopens : e.Opens A S) {N Out Digest : Type} {H : HeaderCodecs N Out Digest} {header : Header N Out Digest}
    (hheader : HeaderOf header g published)
    {bytes : List UInt8} (hbytes : header.encode H = some bytes) (n : ℕ) (rest : List UInt8) :
    ∃ r d commitments, forwarded H n (bytes ++ rest) = .ok (bytes ++ rest) ∧
      Header.decode H (bytes ++ rest) = .ok (r, rest) ∧ DecodedAs r d commitments ∧
      ∀ cells : List SingleCell, (∀ c ∈ cells, Sampled A S d (commitments.map fun c => c.val) c) →
        (∃ c ∈ cells, Forged A S e published c) ∨
        ((cells.map SingleCell.position).Nodup → ∀ id ∈ extrinsics.map AppExtrinsic.appId,
          ∃ positions, appSpecificCells r.extension.appLookup d id = some positions ∧
            ((∀ p ∈ positions, p ∈ cells.map SingleCell.position) →
              decodeAppExtrinsics K r.extension.appLookup d (cells.map SingleCell.toDataCell) id =
                .ok (extrinsicsOf id extrinsics))) := by
  obtain ⟨-, hcarries⟩ := EvaluationGrid.carries_of_fromExtrinsics hg
  obtain ⟨L, -, hL⟩ := fromIdAndLenIter_eq_ok_iff.mp hcarries.lookup
  obtain ⟨-, hwidth, -⟩ := exists_columnDomains_of_extendColumns he
  have htotal : total L.items ≠ 2 ^ 32 - 1 := by
    rw [hL, L.lookup_len, toNat_ofNat_of_lt L.total_lt, chunkSize] at hlen
    omega
  have hlookup : header.extension.appLookup = L.lookup := hheader.lookup.trans hL
  obtain ⟨l, hl, hsame⟩ := L.exists_tryFrom_sameRange htotal
  obtain ⟨commitments, hdecoded, hmap⟩ := exists_decodedAs (S := S.toScheme) hheader hcommit l
  have hdec : Header.decode H (bytes ++ rest) = .ok (header.withLookup l, rest) := by
    rw [Header.encode_eq, hlookup] at hbytes
    exact (Header.decode_of_wire hbytes rest).mpr ⟨l, hl, rfl⟩
  refine ⟨_, g.dims, commitments, L.forwarded_of_layout htotal hlookup hbytes n rest, hdec, hdecoded, ?_⟩
  rw [hmap]
  intro cells hcells
  refine (forged_or_hasCell hcommit hopens hwidth hcells).imp_right fun hvalue hnodup id hid => ?_
  obtain ⟨positions, hpositions, hne, hdecode⟩ := exists_decodeAppExtrinsics_published hg he hlen hid
  have hrange : l.rangeOf id = g.lookup.rangeOf id := by
    rcases hsame id with heq | ⟨hnone, -⟩
    · rw [heq, hL]
    · rw [appSpecificCells, hL, hnone] at hpositions
      cases hpositions
  refine ⟨positions, ?_, fun hfound => ?_⟩
  · rw [← hpositions]
    exact congrArg (Option.bind · _) hrange
  · have hsameRange : SameRange g.lookup l id := Or.inl hrange
    rw [← map_position_toDataCell] at hfound hnodup
    exact (hsameRange.decodeAppExtrinsics_eq K g.dims _).trans
      (hdecode _ ((mappable_iff_nodup he hvalue).mpr hnodup) hfound fun c hc _ => hvalue c hc)

/-! ### Two applications -/

/-- The header of a block with two applications, with bytes for its parts. -/
def twoAppsHeader : Header UInt8 UInt8 UInt8 :=
  ⟨1, 7, 2, 3, 4, .v3 ⟨twoAppsGrid.lookup, 2, 4, twoAppsCommitments.flatten, List.Vector.replicate 32 0⟩⟩

theorem exists_encode_twoAppsHeader : ∃ bytes, twoAppsHeader.encode byteHeader = some bytes := by
  have hlength : twoAppsCommitments.flatten.length = 4 * commitmentSize := by
    have hbytes := @length_of_mem_commitmentsBytes _ _ _ (Scheme.atPoint 5) _ _ commitmentsBytes_twoApps
    exact Chunks.length_flatten_uniform hbytes
  have hencode : (scaleKateCommitment.encode
      ⟨2, 4, twoAppsCommitments.flatten, List.Vector.replicate 32 0⟩).isSome := by
    refine Codec.prod_encode_isSome rfl <| Codec.prod_encode_isSome rfl <| Codec.prod_encode_isSome
      (Codec.vec_encode_isSome byte (fun _ _ => rfl) ?_) rfl
    rw [hlength]
    decide
  obtain ⟨commitment, hcommitment⟩ := Option.isSome_iff_exists.mp hencode
  obtain ⟨lookup, hlookup⟩ : ∃ lookup, twoAppsGrid.lookup.encode scaleCompact = some lookup := ⟨_, rfl⟩
  simp only [Header.encode, HeaderExtension.encode, twoAppsHeader, hlookup, hcommitment]
  exact ⟨_, rfl⟩

/-- The application with more than one chunk, from the header that five nodes sent on. -/
theorem decodeAppExtrinsics_forwarded_two :
    ∃ (bytes : List UInt8) (r : Header UInt8 UInt8 UInt8) (cells : List SingleCell),
      twoAppsHeader.encode byteHeader = some bytes ∧ forwarded byteHeader 5 (bytes ++ [9]) = .ok (bytes ++ [9]) ∧
      Header.decode byteHeader (bytes ++ [9]) = .ok (r, [9]) ∧ cells.map SingleCell.position = longPositions ∧
      decodeAppExtrinsics scaleAppData r.extension.appLookup twoAppsGrid.dims (cells.map SingleCell.toDataCell) ⟨2⟩ =
        .ok [List.replicate 100 7] := by
  obtain ⟨bytes, hbytes⟩ := exists_encode_twoAppsHeader
  obtain ⟨cells, hpositions, hsampled, hvalue⟩ := @exists_sampled_twoApps longPositions (by decide)
  have hheader : HeaderOf twoAppsHeader twoAppsGrid twoAppsCommitments := ⟨rfl, rfl, rfl, rfl⟩
  obtain ⟨r, d, commitments, hforwarded, hdec, hdecoded, hread⟩ := decodeAppExtrinsics_forwarded scaleAppData _
    (CellScheme.atPoint 5) (fromExtrinsics_twoApps (List.Vector.replicate 32 0)) extendColumns_twoApps (by decide)
    commitmentsBytes_twoApps (opens_atPoint 5 _) hheader hbytes 5 [9]
  obtain ⟨l, hl, heq⟩ := (Header.decode_of_wire (Header.encode_eq twoAppsHeader ▸ hbytes) [9]).mp hdec
  obtain rfl : ⟨(⟨0⟩, ⟨0, 0⟩) :: twoAppsGrid.lookup.index⟩ = l := Except.ok.inj hl
  obtain rfl := congrArg Prod.fst heq
  -- the dimensions and the commitments are those that were published
  obtain rfl : twoAppsGrid.dims = d := Option.some.inj hdecoded.dims
  have hpublished := @fromSlice_commitmentsBytes _ _ _ (CellScheme.atPoint 5).toScheme _ _ commitmentsBytes_twoApps _
    hdecoded.commitments
  rw [hpublished] at hread
  have hnodup : (cells.map SingleCell.position).Nodup := by
    rw [hpositions]
    decide
  obtain ⟨positions, happ, hdecode⟩ := (hread cells hsampled).resolve_left (not_exists_forged hvalue) hnodup ⟨2⟩
    (by decide)
  obtain rfl : longPositions = positions := Option.some.inj (appSpecificCells_twoApps.symm.trans happ)
  exact ⟨bytes, _, cells, hbytes, hforwarded, hdec, hpositions, hdecode (hpositions ▸ fun _ hp => hp)⟩

end AvailCore
