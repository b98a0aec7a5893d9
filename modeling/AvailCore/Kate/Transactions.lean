import AvailCore.Core.SignedPayload
import AvailCore.Kate.Sampling

/-!
# From signed transactions to the data of an application

A node checks the extrinsics that it is sent, makes an `AppExtrinsic` of each, with
`AppExtrinsic::from` of `core/src/app_extrinsic.rs`, and encodes the block. A light client
decodes the data of an application from the cells of the extended grid, and each item of
it is the bytes of an extrinsic.

## What is proved

The client has the extrinsics of the application, all of them and in their order in the
block, and those of an application other than the default were meant for it by who signed
them, or have a forged signature (`decodeAppExtrinsics_transactions`).
-/

namespace AvailCore

open Chunks Grouping

variable {Address AccountId Call Signature Extra Additional : Type} [GetAppId Extra]

/-- `AppExtrinsic::from(app_ext)`; `none` where `encode` panics. -/
def AppExtrinsic.ofUnchecked (K : ExtrinsicCodecs Address Call Signature Extra)
    (x : AppUncheckedExtrinsic Address Call Signature Extra) : Option AppExtrinsic := do
  let data ← x.encode K
  return ⟨x.appId, data⟩

/-- The extrinsics of an application, in the order of the block. -/
def transactionsOf (id : AppId) (xs : List (AppUncheckedExtrinsic Address Call Signature Extra)) :
    List (AppUncheckedExtrinsic Address Call Signature Extra) :=
  xs.filter fun x => x.appId = id

variable {K : ExtrinsicCodecs Address Call Signature Extra}

/-- What is made of an extrinsic is decoded as it. -/
theorem decode_ofUnchecked {x : AppUncheckedExtrinsic Address Call Signature Extra} {e : AppExtrinsic}
    (h : AppExtrinsic.ofUnchecked K x = some e) (hshort : x.Short K) :
    e.appId = x.appId ∧ AppUncheckedExtrinsic.decode K e.data = .ok (x, []) := by
  simp only [AppExtrinsic.ofUnchecked, Option.bind_eq_bind, Option.bind_eq_some_iff, Option.pure_def,
    Option.some.injEq] at h
  obtain ⟨data, hdata, rfl⟩ := h
  refine ⟨rfl, ?_⟩
  obtain ⟨body, hbody, -⟩ := Option.bind_eq_some_iff.mp hdata
  rw [AppUncheckedExtrinsic.encode_eq_some hbody (hshort body hbody), Option.some.injEq] at hdata
  have hdecode := AppUncheckedExtrinsic.decode_encode hbody (hshort body hbody) []
  rwa [List.append_nil, hdata] at hdecode

/-- The data of an application are its extrinsics. -/
theorem decode_extrinsicsOf {xs : List (AppUncheckedExtrinsic Address Call Signature Extra)}
    {extrinsics : List AppExtrinsic}
    (hblock : List.Forall₂ (fun x e => AppExtrinsic.ofUnchecked K x = some e) xs extrinsics)
    (hshort : ∀ x ∈ xs, x.Short K) (id : AppId) :
    List.Forall₂ (fun data x => AppUncheckedExtrinsic.decode K data = .ok (x, [])) (extrinsicsOf id extrinsics)
      (transactionsOf id xs) := by
  induction hblock with
  | nil => exact .nil
  | cons hhead _ ih =>
    obtain ⟨hx, hxs⟩ := List.forall_mem_cons.mp hshort
    obtain ⟨happId, hdecode⟩ := decode_ofUnchecked hhead hx
    have hrest := ih hxs
    rw [extrinsicsOf] at hrest ⊢
    rw [transactionsOf] at hrest ⊢
    rw [List.filter_cons, List.filter_cons, happId]
    split_ifs with hid
    · exact .cons hdecode hrest
    · exact hrest

/-- **A client has the transactions of an application, as they were signed for it**, or with a forged signature. -/
theorem decodeAppExtrinsics_transactions {A : Ark} (K : Codec AppData) (rng : Rng)
    (X : Chain Address AccountId Call Signature Extra Additional)
    {xs : List (AppUncheckedExtrinsic Address Call Signature Extra)} {extrinsics : List AppExtrinsic}
    (hblock : List.Forall₂ (fun x e => AppExtrinsic.ofUnchecked X.toExtrinsicCodecs x = some e) xs extrinsics)
    (hshort : ∀ x ∈ xs, x.Short X.toExtrinsicCodecs) (hchecked : ∀ x ∈ xs, ∃ c, X.check x = .ok c)
    (Meant : AccountId → SignedPayload Call Extra Additional → Prop) {minWidth maxWidth maxHeight : ℕ}
    {rngSeed : Seed} {g e : EvaluationGrid}
    (hg : EvaluationGrid.fromExtrinsics A K rng extrinsics minWidth maxWidth maxHeight rngSeed = .ok g)
    (he : g.extendColumns A ⟨extensionFactor, by decide⟩ = .ok e) (hlen : g.lookup.len.toNat * chunkSize < 2 ^ 32)
    {id : AppId} (hid : ∃ x ∈ xs, x.appId = id) {cells : List DataCell} (hcells : ∀ c ∈ cells, e.HasCell A c)
    (hnodup : (cells.map DataCell.position).Nodup)
    (hfound : ∀ p ∈ (appSpecificCells g.lookup g.dims id).getD [], p ∈ cells.map DataCell.position) :
    (∃ data, decodeAppExtrinsics K g.lookup g.dims cells id = .ok data ∧
      List.Forall₂ (fun bytes x => AppUncheckedExtrinsic.decode X.toExtrinsicCodecs bytes = .ok (x, [])) data
        (transactionsOf id xs)) ∧
    (id ≠ ⟨0⟩ → ∀ x ∈ transactionsOf id xs, X.Forgery Meant x ∨ X.SignerMeant Meant x) := by
  constructor
  · have hmem : id ∈ extrinsics.map AppExtrinsic.appId := by
      obtain ⟨x, hx, rfl⟩ := hid
      obtain ⟨e, he, hof⟩ := Except.exists_of_mem_forall₂ hblock.flip hx
      exact List.mem_map.mpr ⟨e, he, (decode_ofUnchecked hof (hshort x hx)).1⟩
    obtain ⟨positions, hpositions, -, hdecode⟩ := exists_decodeAppExtrinsics_published hg he hlen hmem
    rw [hpositions, Option.getD_some] at hfound
    refine ⟨_, hdecode cells ((mappable_iff_nodup he hcells).mpr hnodup) hfound fun c hc _ => hcells c hc, ?_⟩
    exact decode_extrinsicsOf hblock hshort id
  · intro hne x hx
    obtain ⟨hx, happId⟩ := List.mem_filter.mp hx
    obtain ⟨c, hc⟩ := hchecked x hx
    refine Chain.forgery_or_signerMeant_of_check Meant hc (Chain.isSome_signature_of_appId ?_)
    rwa [of_decide_eq_true happId]

/-! ### A block of one transaction -/

/-- The extra data are the id. -/
local instance : GetAppId UInt8 := ⟨fun extra => ⟨extra.toUInt32⟩⟩

/-- One account, that signed an empty call for the application 1. -/
def oneChain : Chain UInt8 UInt8 (List UInt8) UInt8 UInt8 UInt8 where
  toExtrinsicCodecs := byteCodecs
  additional := byte
  additionalSigned _ := .ok 0
  lookup := some
  verify _ bytes _ := decide (bytes = [0, 1, 0])
  blake2_256 _ := List.Vector.replicate 32 0

def oneTransaction : AppUncheckedExtrinsic UInt8 (List UInt8) UInt8 UInt8 := ⟨some (0, 0, 1), []⟩

def transactionBytes : List UInt8 := [20, 132, 0, 0, 1, 0]

/-- Its chunk. -/
def transactionChunk : Chunk := ⟨4 :: 24 :: transactionBytes ++ List.replicate 24 0, rfl⟩

theorem toBytes_transactionChunk : bls12381.toBytes 281477192620036 = some transactionChunk := by
  decide

/-- A column of this chunk's scalar. -/
def transactionColumn (s : ArkScalar) (rows : NonZeroU16) : EvaluationGrid :=
  ⟨⟨[(⟨1⟩, ⟨0, 1⟩)]⟩, ⟨rows, ⟨1, NonZeroU16.one_bounds⟩⟩,
    ⟨[List.replicate rows.val s], rfl, by simp [Dimensions.height]⟩⟩

theorem fromExtrinsics_transaction (rng : Rng) (seed : Seed) :
    EvaluationGrid.fromExtrinsics bls12381 scaleAppData rng [⟨⟨1⟩, transactionBytes⟩] 1 2 1 seed =
      .ok (transactionColumn 281477192620036 ⟨1, by decide⟩) := by
  have hgroups : (treeGroup ([⟨⟨1⟩, transactionBytes⟩].map AppExtrinsic.pair)).toList = [(⟨1⟩, [transactionBytes])] :=
    ((treeGroup_isGrouping _).unique (grouped_isGrouping _)).trans (groupsOf_singleton _)
  have hscalar : padToBlsScalar bls12381 (4 :: 24 :: transactionBytes) = .ok 281477192620036 :=
    congrArg (Run.okOr KateError.multiproofError) (bls12381.fromBytes_toBytes toBytes_transactionChunk)
  have hencode : scaleAppData.encode [transactionBytes] = some (4 :: 24 :: transactionBytes) := rfl
  have hchunks : chunks dataChunkSize (4 :: 24 :: transactionBytes) = [4 :: 24 :: transactionBytes] := by decide
  have hscalars : scalarsOfGroup bls12381 scaleAppData (⟨1⟩, [transactionBytes]) = .ok (⟨1⟩, [281477192620036]) := by
    simp [scalarsOfGroup, hencode, hchunks, hscalar]
  rw [EvaluationGrid.fromExtrinsics, hgroups, List.mapM_cons, hscalars]
  rfl

theorem extendColumns_transaction (s : ArkScalar) : (transactionColumn s ⟨1, by decide⟩).extendColumns bls12381
    ⟨2, by decide⟩ = .ok (transactionColumn s ⟨2, by decide⟩) := by
  refine EvaluationGrid.extendColumns_eq_ok_of rfl rfl bls12381_newDomain_one bls12381_newDomain_two rfl ?_
  exact congrArg (fun column => [column]) (bls12381_extend_one _ _ s).symm

theorem decodeAppExtrinsics_transactions_one :
    (∃ data, decodeAppExtrinsics scaleAppData ⟨[(⟨1⟩, ⟨0, 1⟩)]⟩ ⟨⟨1, by decide⟩, ⟨1, by decide⟩⟩
        [⟨⟨0, 0⟩, transactionChunk⟩] ⟨1⟩ = .ok data ∧
      List.Forall₂ (fun bytes x => AppUncheckedExtrinsic.decode byteCodecs bytes = .ok (x, [])) data
        (transactionsOf ⟨1⟩ [oneTransaction])) ∧
    oneChain.SignerMeant (fun _ p => p = ⟨[], 1, 0⟩) oneTransaction := by
  have hencode : AppExtrinsic.ofUnchecked byteCodecs oneTransaction = some ⟨⟨1⟩, transactionBytes⟩ := rfl
  have hshort : oneTransaction.Short byteCodecs := by
    intro body hbody
    obtain rfl : [132, 0, 0, 1, 0] = body := Option.some.inj hbody
    decide
  have hsigned : ¬ oneChain.Forgery (fun _ p => p = ⟨[], 1, 0⟩) oneTransaction := by
    rintro ⟨address, signature, extra, who, additional, bytes, -, -, -, -, hverify, hnone⟩
    obtain rfl : bytes = [0, 1, 0] := of_decide_eq_true hverify
    exact hnone ⟨[], 1, 0⟩ rfl rfl
  have hcell : ∀ c ∈ [(⟨⟨0, 0⟩, transactionChunk⟩ : DataCell)],
      (transactionColumn 281477192620036 ⟨2, by decide⟩).HasCell bls12381 c := by
    intro c hc
    obtain rfl := List.mem_singleton.mp hc
    exact ⟨_, rfl, toBytes_transactionChunk⟩
  obtain ⟨hdata, hmeant⟩ := decodeAppExtrinsics_transactions scaleAppData (fun _ _ => List.Vector.replicate 31 7) oneChain
    (.cons hencode .nil) (List.forall_mem_singleton.mpr hshort) (List.forall_mem_singleton.mpr ⟨⟨some (0, 1), []⟩, rfl⟩)
    (fun _ p => p = ⟨[], 1, 0⟩) (fromExtrinsics_transaction _ (List.Vector.replicate 32 0)) (extendColumns_transaction _) (by decide)
    (⟨oneTransaction, List.mem_singleton.mpr rfl, rfl⟩ : ∃ x ∈ [oneTransaction], x.appId = ⟨1⟩) hcell (by decide)
    (by decide)
  exact ⟨hdata, (hmeant (by decide) _ (by decide)).resolve_left hsigned⟩

end AvailCore
