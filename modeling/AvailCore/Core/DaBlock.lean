import AvailCore.Core.Asdr
import AvailCore.Core.Header
import AvailCore.Foundation.Coder

/-!
# Blocks

`core/src/da_block.rs`. A block is a header and the extrinsics that go with it, of any
types with codecs. The runtime has a block of `AppUncheckedExtrinsic`, and a node one of
`OpaqueExtrinsic`, which it passes on without looking into them.

## The model

The types with codecs are given by how they are written and read (`Coder`). An error says
which part of the block cannot be decoded. A node that passes a block on has decoded it,
and encodes what it has (`opaqueCoder`, `Coder.passOn`).

## What is proved

Of the same bytes the runtime and a node have the same header, and the runtime has the
extrinsics that open with nothing left over; both write the same bytes
(`runtimeBlock_iff_opaqueBlock`). So a block of the runtime that goes over any number of
nodes has its extrinsics in the end, and its header with a lookup that settles, unless
some node refuses it (`passedOn_runtimeBlock`).
-/

namespace AvailCore

open DataLookup CompactDataLookup AppUncheckedExtrinsic

/-- `DaBlock` -/
structure DaBlock (Header Extrinsic : Type) where
  header : Header
  extrinsics : List Extrinsic
  deriving DecidableEq

/-- The part of a block that cannot be decoded, and why. -/
inductive DaBlockError where
  | header (e : DecodeError)
  | extrinsics (e : CodecError)
  deriving DecidableEq, Repr

namespace DaBlock

variable {Header Extrinsic : Type} (H : Coder DecodeError Header) (X : Coder CodecError Extrinsic)

/-- `DaBlock::encode_from` -/
def encodeFrom (header : Header) (extrinsics : List Extrinsic) : Option (List UInt8) := do
  let header ← H.encode header
  let extrinsics ← (X.vec .part).encode extrinsics
  return header ++ extrinsics

/-- The codec of `DaBlock`, that of its fields in order. -/
def coder : Coder DaBlockError (DaBlock Header Extrinsic) where
  encode block := encodeFrom H X block.header block.extrinsics
  decode input := do
    let (header, input) ← (H.decode input).mapErr .header
    let (extrinsics, input) ← ((X.vec .part).decode input).mapErr .extrinsics
    return (⟨header, extrinsics⟩, input)

variable {H X}

theorem decode_eq_ok_iff {header : Header} {extrinsics : List Extrinsic} {input rest : List UInt8} :
    (coder H X).decode input = .ok (⟨header, extrinsics⟩, rest) ↔ ∃ after, H.decode input = .ok (header, after) ∧
      (X.vec .part).decode after = .ok (extrinsics, rest) := by
  simp only [coder, Except.bind_eq_ok, Run.mapErr_eq_ok, Except.pure_eq_ok, Except.ok.injEq]
  constructor
  · intro h
    obtain ⟨⟨_, after⟩, hheader, ⟨_, _⟩, hextrinsics, heq⟩ := h
    cases heq
    exact ⟨after, hheader, hextrinsics⟩
  · intro h
    obtain ⟨after, hheader, hextrinsics⟩ := h
    exact ⟨_, hheader, _, hextrinsics, rfl⟩

/-- A block is passed on as its header is, with the same bytes for its extrinsics. -/
theorem passOn_eq (hX : X.Canonical) {input : List UInt8}
    (hafter : ∀ header after, H.decode input = .ok (header, after) → ∃ r, (X.vec .part).decode after = .ok r) :
    (coder H X).passOn input = (H.passOn input).mapErr .header := by
  cases hheader : H.decode input with
  | error s => cases s <;> simp only [Coder.passOn, coder, hheader] <;> rfl
  | ok r =>
    obtain ⟨header, after⟩ := r
    obtain ⟨⟨extrinsics, rest⟩, hextrinsics⟩ := hafter header after hheader
    obtain ⟨bytes, hbytes, rfl⟩ := hX.vec .part hextrinsics
    cases hencode : H.encode header with
    | none =>
      simp only [Coder.passOn, coder, encodeFrom, hheader, hextrinsics, hencode, Run.mapErr_ok, Except.ok_bind,
        Except.pure_eq_ok]
      rfl
    | some bytes' =>
      simp only [Coder.passOn, coder, encodeFrom, hheader, hextrinsics, hencode, hbytes, Run.mapErr_ok, Except.ok_bind,
        Option.bind_eq_bind, Option.bind_some, Option.pure_def, Run.unwrap_some, Except.pure_eq_ok, List.append_assoc]

end DaBlock

/-! ### The blocks of the runtime and of a node -/

section Blocks

variable {Address Call Signature Extra : Type}

/-- The codec of `Header`. -/
def headerCoder {N Out Digest : Type} (K : HeaderCodecs N Out Digest) : Coder DecodeError (Header N Out Digest) :=
  ⟨Header.encode K, Header.decode K⟩

/-- The codec of `OpaqueExtrinsic`. -/
def opaqueCoder : Coder CodecError OpaqueExtrinsic := .ofCodec .part opaqueCodec

/-- The codec of `AppUncheckedExtrinsic`. -/
def uncheckedCoder (K : ExtrinsicCodecs Address Call Signature Extra) :
    Coder CodecError (AppUncheckedExtrinsic Address Call Signature Extra) := ⟨encode K, decode K⟩

/-- An opaque extrinsic opens as another, with nothing left over. -/
def OpensWhole (K : ExtrinsicCodecs Address Call Signature Extra) (o : OpaqueExtrinsic)
    (x : AppUncheckedExtrinsic Address Call Signature Extra) : Prop := decodeNoVecPrefix K o.bytes = .ok (x, [])

variable {K : ExtrinsicCodecs Address Call Signature Extra} {o : OpaqueExtrinsic}
  {x : AppUncheckedExtrinsic Address Call Signature Extra}

theorem opaqueCodec_canonical : opaqueCodec.Canonical := by
  intro o input rest h
  simp only [opaqueCodec, Codec.iso, Option.bind_eq_bind, Option.bind_eq_some_iff, Option.pure_def,
    Option.some.injEq] at h
  obtain ⟨⟨bytes, _⟩, hbytes, heq⟩ := h
  cases heq
  exact byte_canonical.vec hbytes

/-- What an opaque extrinsic is read from: its length, and its bytes. -/
theorem opaqueCoder_decode_eq_ok_iff {input rest : List UInt8} : opaqueCoder.decode input = .ok (o, rest) ↔
    o.bytes.length < 2 ^ 32 ∧ input = compactBytes o.bytes.length ++ o.bytes ++ rest := by
  constructor
  · intro h
    obtain ⟨bytes, hbytes, rfl⟩ := Coder.canonical_ofCodec _ opaqueCodec_canonical h
    have hlen : o.bytes.length < 2 ^ 32 := (Codec.vec_encode_eq_some.mp hbytes).1
    refine ⟨hlen, ?_⟩
    rw [← Option.some.inj (hbytes.symm.trans (opaqueCodec_encode hlen))]
  · rintro ⟨hlen, rfl⟩
    exact Run.okOr_eq_ok.mpr (opaqueCodec.decode_encode (opaqueCodec_encode hlen) rest)

/-- What an extrinsic is made opaque to is written as it. -/
theorem encode_fromExtrinsic (h : OpaqueExtrinsic.fromExtrinsic K x = .ok o) (hshort : x.Short K) :
    opaqueCoder.encode o = (uncheckedCoder K).encode x := by
  simp only [OpaqueExtrinsic.fromExtrinsic, Except.bind_eq_ok, Run.unwrap_eq_ok, Run.expect_eq_ok,
    OpaqueExtrinsic.fromBytes, Run.okOr_eq_ok, Except.pure_eq_ok, Except.ok.injEq] at h
  obtain ⟨bytes, hbytes, ⟨_, rest⟩, hopaque, rfl⟩ := h
  obtain ⟨body, hbody, -⟩ := Option.bind_eq_some_iff.mp hbytes
  have hlen := hshort body hbody
  have hencode := encode_eq_some hbody hlen
  obtain rfl : bytes = compactBytes body.length ++ body := Option.some.inj (hbytes.symm.trans hencode)
  have hback := opaqueCodec.decode_encode (opaqueCodec_encode (o := ⟨body⟩) hlen) []
  rw [List.append_nil, hopaque, Option.some.injEq, Prod.mk.injEq] at hback
  rw [hback.1]
  exact (opaqueCodec_encode hlen).trans hencode.symm

section Canonical

variable (hK : K.Canonical)
include hK

theorem uncheckedCoder_canonical : (uncheckedCoder K).Canonical := by
  intro x input rest h
  obtain ⟨n, input, hlength, hbody, heq⟩ := AppUncheckedExtrinsic.decode_eq_ok_iff.mp h
  obtain ⟨body, hencode, rfl⟩ := encodeBody_of_isBody hK hbody
  obtain ⟨bytes, hbytes, rfl⟩ := compact_canonical hlength
  cases hbytes
  rw [List.length_append, Nat.add_sub_cancel] at heq
  refine ⟨_, encode_eq_some hencode (heq ▸ n.toNat_lt), ?_⟩
  rw [heq, List.append_assoc]

/-- **The runtime reads what a node reads, and looks into it.** -/
theorem uncheckedCoder_refines : (uncheckedCoder K).Refines opaqueCoder (OpensWhole K) := by
  intro input x rest
  simp only [opaqueCoder_decode_eq_ok_iff]
  constructor
  · intro h
    obtain ⟨n, input, hlength, hbody, heq⟩ := AppUncheckedExtrinsic.decode_eq_ok_iff.mp h
    obtain ⟨body, hencode, rfl⟩ := encodeBody_of_isBody hK hbody
    obtain ⟨bytes, hbytes, rfl⟩ := compact_canonical hlength
    cases hbytes
    rw [List.length_append, Nat.add_sub_cancel] at heq
    have hwhole := isBody_of_encodeBody hencode []
    rw [List.append_nil] at hwhole
    refine ⟨⟨body⟩, ⟨heq ▸ n.toNat_lt, ?_⟩, decodeNoVecPrefix_eq_ok_iff.mpr hwhole⟩
    rw [heq, List.append_assoc]
  · intro h
    obtain ⟨o, ⟨hlen, rfl⟩, hopens⟩ := h
    obtain ⟨body, hbody, heq⟩ := encodeBody_of_isBody hK (decodeNoVecPrefix_eq_ok_iff.mp hopens)
    rw [List.append_nil] at heq
    rw [heq] at hlen ⊢
    exact decode_encode hbody hlen rest

end Canonical

end Blocks

/-- **The blocks of the runtime and of a node are of one format.** The runtime reads a block just where a node reads one
whose extrinsics all open whole, and has the same header and what they open as; and it writes what a node writes. -/
theorem runtimeBlock_iff_opaqueBlock {Header Address Call Signature Extra : Type} (H : Coder DecodeError Header)
    {K : ExtrinsicCodecs Address Call Signature Extra} (hK : K.Canonical) :
    (∀ input header xs rest, (DaBlock.coder H (uncheckedCoder K)).decode input = .ok (⟨header, xs⟩, rest) ↔
      ∃ os, (DaBlock.coder H opaqueCoder).decode input = .ok (⟨header, os⟩, rest) ∧
        List.Forall₂ (OpensWhole K) os xs) ∧
    ∀ header xs os, List.Forall₂ (fun o x => OpaqueExtrinsic.fromExtrinsic K x = .ok o) os xs → (∀ x ∈ xs, x.Short K) →
      DaBlock.encodeFrom H opaqueCoder header os = DaBlock.encodeFrom H (uncheckedCoder K) header xs := by
  have hrefines : (uncheckedCoder K).Refines opaqueCoder (OpensWhole K) := uncheckedCoder_refines hK
  constructor
  · intro input header xs rest
    simp only [DaBlock.decode_eq_ok_iff]
    constructor
    · intro h
      obtain ⟨after, hheader, hxs⟩ := h
      obtain ⟨os, hos, hopens⟩ := (hrefines.vec .part .part).mp hxs
      exact ⟨os, ⟨after, hheader, hos⟩, hopens⟩
    · intro h
      obtain ⟨os, ⟨after, hheader, hos⟩, hopens⟩ := h
      exact ⟨after, hheader, (hrefines.vec .part .part).mpr ⟨os, hos, hopens⟩⟩
  · intro header xs os hfrom hshort
    have hwritten : List.Forall₂ (fun o x => opaqueCoder.encode o = (uncheckedCoder K).encode x) os xs := by
      rw [List.forall₂_iff_get] at hfrom ⊢
      refine ⟨hfrom.1, fun i hi hi' => ?_⟩
      exact encode_fromExtrinsic (hfrom.2 i hi hi') (hshort _ (List.get_mem ..))
    rw [DaBlock.encodeFrom, DaBlock.encodeFrom, Coder.vec_encode_congr hwritten .part .part]

/-- An unsigned extrinsic with an empty call, after a header of one byte. -/
theorem runtimeBlock_iff_opaqueBlock_one :
    (DaBlock.coder (Coder.ofCodec .codec byte) (uncheckedCoder byteCodecs)).decode [7, 4, 8, 4, 0, 9] =
      .ok (⟨7, [⟨none, []⟩]⟩, [9]) := by
  have hK : byteCodecs.Canonical := ⟨byte_canonical, Codec.Canonical.vec byte_canonical, byte_canonical, byte_canonical⟩
  refine ((runtimeBlock_iff_opaqueBlock (Coder.ofCodec .codec byte) hK).1 _ _ _ _).mpr ⟨[⟨[4, 0]⟩], rfl, ?_⟩
  exact .cons rfl .nil

/-! ### Any number of nodes -/

section Nodes

variable {N Out Digest Extrinsic : Type} {K : HeaderCodecs N Out Digest} {X : Coder CodecError Extrinsic}
  {h : Header N Out Digest} {c : CompactDataLookup} {bytes tail : List UInt8}

/-- **A block goes over the nodes as its header does.** -/
theorem passedOn_eq_forwarded (hX : X.Canonical) {r : List Extrinsic × List UInt8}
    (htail : (X.vec .part).decode tail = .ok r) (hbytes : K.wire.encode (h.sent c) = some bytes)
    (hc : c.isError = false) (n : ℕ) : (DaBlock.coder (headerCoder K) X).passedOn n (bytes ++ tail) =
      (forwarded K n (bytes ++ tail)).mapErr .header := by
  have hafter : ∀ {c' : CompactDataLookup} {bytes'}, K.wire.encode (h.sent c') = some bytes' →
      (DaBlock.coder (headerCoder K) X).passOn (bytes' ++ tail) = (forward K (bytes' ++ tail)).mapErr .header := by
    intro c' bytes' hbytes'
    refine DaBlock.passOn_eq hX fun header after hheader => ?_
    obtain ⟨l, -, heq⟩ := (Header.decode_of_wire hbytes' tail).mp hheader
    obtain rfl : after = tail := (Prod.mk.inj heq).2
    exact ⟨r, htail⟩
  induction n generalizing c bytes with
  | zero => rfl
  | succ n ih =>
    rw [Coder.passedOn, forwarded, hafter hbytes]
    cases hforward : forward K (bytes ++ tail) with
    | error s => cases s <;> rfl
    | ok sent =>
      obtain ⟨c', bytes', hrelay, hbytes', rfl⟩ := (forward_eq_ok_iff hbytes).mp hforward
      exact ih hbytes' (relay_of_wire hbytes hc hrelay).1

end Nodes

/-- **A block of the runtime keeps its extrinsics over any number of nodes, and its header settles**, or some node
refuses its lookup: the nodes decode it with opaque extrinsics, and the runtime reads it again in the end. -/
theorem passedOn_runtimeBlock {N Out Digest Address Call Signature Extra : Type} {K : HeaderCodecs N Out Digest}
    (hK : K.Canonical) {X : ExtrinsicCodecs Address Call Signature Extra} (hX : X.Canonical) {input rest : List UInt8}
    {h : Header N Out Digest} {xs : List (AppUncheckedExtrinsic Address Call Signature Extra)}
    (hdec : (DaBlock.coder (headerCoder K) (uncheckedCoder X)).decode input = .ok (⟨h, xs⟩, rest)) :
    ∃ c after, DataLookup.tryFrom c = .ok h.extension.appLookup ∧ K.wire.decode input = some (h.sent c, after) ∧
      (c.isError = false →
        (c.Settles → ∃ settled bytes, settled.parts = h.parts ∧
          settled.extension.commitment = h.extension.commitment ∧
          DaBlock.encodeFrom (headerCoder K) (uncheckedCoder X) settled xs = some bytes ∧
          (DaBlock.coder (headerCoder K) (uncheckedCoder X)).decode (bytes ++ rest) = .ok (⟨settled, xs⟩, rest) ∧
          ∀ n ≥ c.index.length,
            (DaBlock.coder (headerCoder K) opaqueCoder).passedOn n input = .ok (bytes ++ rest)) ∧
        (¬ c.Settles → ∀ n > c.index.length, (DaBlock.coder (headerCoder K) opaqueCoder).passedOn n input =
          Run.fail (.header (.custom "Invalid `DataLookup`")))) := by
  obtain ⟨after, hheader, hxs⟩ := DaBlock.decode_eq_ok_iff.mp hdec
  obtain ⟨c, hlookup, hwire⟩ := Header.decode_eq_ok_iff.mp hheader
  refine ⟨c, after, hlookup, hwire, fun hc => ?_⟩
  have hcanonical : K.wire.Canonical := hK.wire
  obtain ⟨header, hbytes, rfl⟩ := hcanonical hwire
  -- the nodes read the extrinsics too, as opaque ones
  have hrefines : (uncheckedCoder X).Refines opaqueCoder (OpensWhole X) := uncheckedCoder_refines hX
  obtain ⟨os, hos, -⟩ := (hrefines.vec .part .part).mp hxs
  have hopaque : opaqueCoder.Canonical := Coder.canonical_ofCodec _ opaqueCodec_canonical
  have hpassed := passedOn_eq_forwarded hopaque hos hbytes hc
  constructor
  · intro hsettles
    obtain ⟨settled, bytes, hparts, hcommitment, hencode, hback, hforwarded⟩ := exists_settled hbytes hc hsettles after
    have hunchecked : (uncheckedCoder X).Canonical := uncheckedCoder_canonical hX
    obtain ⟨extrinsics, hextrinsics, rfl⟩ := hunchecked.vec .part hxs
    refine ⟨settled, bytes ++ extrinsics, hparts, hcommitment, ?_, ?_, fun n hn => ?_⟩
    · simp only [DaBlock.encodeFrom, headerCoder, hencode, hextrinsics, Option.bind_eq_bind, Option.bind_some,
        Option.pure_def]
    · rw [List.append_assoc]
      exact DaBlock.decode_eq_ok_iff.mpr ⟨_, hback, hxs⟩
    · rw [hpassed, hforwarded n hn, Run.mapErr_ok, List.append_assoc]
  · intro hnot n hn
    rw [hpassed, forwarded_eq_fail hbytes hc (relayed_eq_fail hc (length_index_lt hbytes) hnot hn)]
    rfl

/-- A block with the header of two items at its end, and an unsigned extrinsic. -/
theorem passedOn_runtimeBlock_two : ∃ (settled : Header UInt8 UInt8 UInt8) (bytes : List UInt8),
    settled.parts = (1, 7, 2, 3, 4) ∧
      DaBlock.encodeFrom (headerCoder byteHeader) (uncheckedCoder byteCodecs) settled [⟨none, []⟩] = some bytes ∧
      ∀ n ≥ 3, (DaBlock.coder (headerCoder byteHeader) opaqueCoder).passedOn n (unsettledHeader ++ [4, 8, 4, 0]) =
        .ok bytes := by
  have hK : byteHeader.Canonical := ⟨byte_canonical, byte_canonical, byte_canonical⟩
  have hX : byteCodecs.Canonical := ⟨byte_canonical, Codec.Canonical.vec byte_canonical, byte_canonical, byte_canonical⟩
  have hdec : (DaBlock.coder (headerCoder byteHeader) (uncheckedCoder byteCodecs)).decode
      (unsettledHeader ++ [4, 8, 4, 0]) = .ok (⟨⟨1, 7, 2, 3, 4, .v3 ⟨⟨[(⟨0⟩, ⟨0, 3⟩), (⟨1⟩, ⟨3, 5⟩), (⟨2⟩, ⟨5, 5⟩)]⟩,
        1, 1, [], List.Vector.replicate 32 0⟩⟩, [⟨none, []⟩]⟩, []) := rfl
  have hform : byteHeader.wire.decode (unsettledHeader ++ [4, 8, 4, 0]) = some (((1, 7, 2, 3, 4),
      CompactDataLookup.mk 5 [⟨⟨1⟩, 3⟩, ⟨⟨2⟩, 5⟩, ⟨⟨3⟩, 5⟩],
      KateCommitment.mk 1 1 [] (List.Vector.replicate 32 0)), [4, 8, 4, 0]) := rfl
  obtain ⟨c, after, -, hwire, hsettles⟩ := passedOn_runtimeBlock hK hX hdec
  obtain rfl : c = ⟨5, [⟨⟨1⟩, 3⟩, ⟨⟨2⟩, 5⟩, ⟨⟨3⟩, 5⟩]⟩ := by
    rw [hform, Option.some.injEq, Prod.mk.injEq] at hwire
    exact (Prod.mk.inj (Prod.mk.inj hwire.1).2).1.symm
  obtain ⟨settled, bytes, hparts, -, hencode, -, hpassed⟩ := (hsettles (by decide)).1 ⟨by decide, by decide⟩
  refine ⟨settled, bytes, hparts, hencode, fun n hn => ?_⟩
  rw [hpassed n hn, List.append_nil]

end AvailCore
