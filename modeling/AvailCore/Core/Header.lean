import AvailCore.Core.Message
import AvailCore.Core.Relay
import AvailCore.Foundation.Scale

/-!
# Headers

`core/src/header` and `core/src/kate_commitment.rs`. A header is that of a Substrate chain with an
extension: the lookup of the block, and the commitments to its rows with its dimensions. The hash
of a header is that of its bytes.

## The model

The number, the hashes and the digest are any types with codecs (`HeaderCodecs`). The lookup is
written as its compact form, and an invalid one is an error of the header. A node that sends a
header on has decoded it (`forward`); what follows the header, as the extrinsics of a block do,
goes along.

## What is proved

`HeaderCodecs.wire` is the format, with the compact form of the lookup in its place. From it: what
bytes are decoded to (`Header.decode_eq_ok_iff`), that two headers of one hash differ in nothing
but lookups of one compact form (`header_hash_eq_iff`), and what is left of a header over any number
of nodes (`forwarded_settles`), all of it when there is no block (`forwarded_of_noBlock`).
-/

namespace AvailCore

open DataLookup CompactDataLookup

/-! ### The extension -/

/-- `v3::KateCommitment` -/
structure KateCommitment where
  rows : UInt16
  cols : UInt16
  /-- The commitments to the rows, one after the other. -/
  commitment : List UInt8
  /-- The root of the submitted data. -/
  dataRoot : H256
  deriving DecidableEq

/-- `v3::HeaderExtension` -/
structure V3Extension where
  appLookup : DataLookup
  commitment : KateCommitment
  deriving DecidableEq

inductive HeaderExtension where
  | v3 (ext : V3Extension)
  deriving DecidableEq

inductive HeaderVersion where
  | v3
  deriving DecidableEq, Repr

namespace HeaderExtension

/-- `HeaderExtension::data_root` -/
def dataRoot : HeaderExtension → H256
  | v3 ext => ext.commitment.dataRoot

/-- `HeaderExtension::app_lookup` -/
def appLookup : HeaderExtension → DataLookup
  | v3 ext => ext.appLookup

/-- The commitment of the extension. -/
def commitment : HeaderExtension → KateCommitment
  | v3 ext => ext.commitment

/-- `HeaderExtension::rows` -/
def rows : HeaderExtension → UInt16
  | v3 ext => ext.commitment.rows

/-- `HeaderExtension::cols` -/
def cols : HeaderExtension → UInt16
  | v3 ext => ext.commitment.cols

/-- `HeaderExtension::get_empty_header` -/
def getEmptyHeader (dataRoot : H256) : HeaderVersion → HeaderExtension
  | .v3 => v3 ⟨newEmpty, ⟨0, 0, [], dataRoot⟩⟩

/-- `HeaderExtension::get_faulty_header` -/
def getFaultyHeader (dataRoot : H256) : HeaderVersion → HeaderExtension
  | .v3 => v3 ⟨DataLookup.newError, ⟨0, 0, [], dataRoot⟩⟩

/-- `HeaderExtension::get_header_version` -/
def getHeaderVersion : HeaderExtension → HeaderVersion
  | v3 _ => .v3

end HeaderExtension

/-- The bytes of a `KateCommitment`. -/
def scaleKateCommitment : Codec KateCommitment :=
  (compactU16.prod <| compactU16.prod <| byte.vec.prod (Codec.array 32)).iso
    (fun p => ⟨p.1, p.2.1, p.2.2.1, p.2.2.2⟩) (fun c => (c.rows, c.cols, c.commitment, c.dataRoot)) fun _ => rfl

/-- `HeaderExtension::encode` -/
def HeaderExtension.encode : HeaderExtension → Option (List UInt8)
  | v3 ext => do
    let lookup ← ext.appLookup.encode scaleCompact
    let commitment ← scaleKateCommitment.encode ext.commitment
    return 2 :: (lookup ++ commitment)

/-- `HeaderExtension::decode` -/
def HeaderExtension.decode : List UInt8 → Run DecodeError (HeaderExtension × List UInt8)
  | [] => Run.fail .codec
  | i :: rest => do
    Run.ensure (i = 2) .codec
    let (lookup, rest) ← DataLookup.decode scaleCompact rest
    let (commitment, rest) ← Run.okOr .codec (scaleKateCommitment.decode rest)
    return (v3 ⟨lookup, commitment⟩, rest)

/-! ### Headers and blocks -/

structure Header (N Out Digest : Type) where
  parentHash : Out
  number : N
  stateRoot : Out
  extrinsicsRoot : Out
  digest : Digest
  extension : HeaderExtension
  deriving DecidableEq

/-- The codecs of the parts of a header; the number's is that of its compact form. -/
structure HeaderCodecs (N Out Digest : Type) where
  hash : Codec Out
  number : Codec N
  digest : Codec Digest

section Format

variable {N Out Digest : Type} (K : HeaderCodecs N Out Digest)

/-- The parts in front of the extension. -/
def HeaderCodecs.parts : Codec (Out × N × Out × Out × Digest) :=
  K.hash.prod <| K.number.prod <| K.hash.prod <| K.hash.prod K.digest

/-- The parts in front of the extension. -/
def Header.parts (h : Header N Out Digest) : Out × N × Out × Out × Digest :=
  (h.parentHash, h.number, h.stateRoot, h.extrinsicsRoot, h.digest)

/-- `Header::encode` -/
def Header.encode (h : Header N Out Digest) : Option (List UInt8) := do
  let parts ← K.parts.encode h.parts
  let extension ← h.extension.encode
  return parts ++ extension

/-- `Header::decode` -/
def Header.decode (input : List UInt8) : Run DecodeError (Header N Out Digest × List UInt8) := do
  let ((parentHash, number, stateRoot, extrinsicsRoot, digest), rest) ← Run.okOr .codec (K.parts.decode input)
  let (extension, rest) ← HeaderExtension.decode rest
  return (⟨parentHash, number, stateRoot, extrinsicsRoot, digest, extension⟩, rest)

/-- `Header::hash`: of the bytes, by the hashing of the chain. -/
def Header.hash (hashing : List UInt8 → Out) (h : Header N Out Digest) : Option Out := (h.encode K).map hashing

/-- What a node sends on of bytes that start with a header. -/
def forward (input : List UInt8) : Run DecodeError (List UInt8) := do
  let (header, rest) ← Header.decode K input
  let bytes ← Run.unwrap (header.encode K)
  return bytes ++ rest

/-- What arrives over so many nodes. -/
def forwarded : ℕ → List UInt8 → Run DecodeError (List UInt8)
  | 0, input => .ok input
  | n + 1, input => do
    let sent ← forward K input
    forwarded n sent

end Format

/-! ### The format -/

section Wire

variable {N Out Digest : Type} {K : HeaderCodecs N Out Digest}

/-- The format, with the compact form of the lookup in its place. -/
def HeaderCodecs.wire (K : HeaderCodecs N Out Digest) :
    Codec ((Out × N × Out × Out × Digest) × CompactDataLookup × KateCommitment) :=
  K.parts.prod ((scaleCompact.prod scaleKateCommitment).variant 2)

/-- The codecs of the parts read in one way only. -/
structure HeaderCodecs.Canonical (K : HeaderCodecs N Out Digest) : Prop where
  hash : K.hash.Canonical
  number : K.number.Canonical
  digest : K.digest.Canonical

theorem scaleCompact_canonical : scaleCompact.Canonical := by
  have hnumber : compact.Canonical := compact_canonical
  have hitem : scaleItem.Canonical := by
    apply Codec.Canonical.iso
    · exact hnumber.prod hnumber
    · exact fun _ => rfl
  have hitems : scaleItem.vec.Canonical := hitem.vec
  apply Codec.Canonical.iso
  · exact hnumber.prod hitems
  · exact fun _ => rfl

theorem scaleKateCommitment_canonical : scaleKateCommitment.Canonical := by
  have hcount : compactU16.Canonical := compactU16_canonical
  have hbytes : byte.vec.Canonical := Codec.Canonical.vec byte_canonical
  have hroot : (Codec.array 32).Canonical := Codec.array_canonical 32
  apply Codec.Canonical.iso
  · exact hcount.prod (hcount.prod (hbytes.prod hroot))
  · exact fun _ => rfl

theorem HeaderCodecs.Canonical.wire (hK : K.Canonical) : K.wire.Canonical := by
  have hlookup : scaleCompact.Canonical := scaleCompact_canonical
  have hcommitment : scaleKateCommitment.Canonical := scaleKateCommitment_canonical
  obtain ⟨hhash, hnumber, hdigest⟩ := hK
  have hparts : K.parts.Canonical := hhash.prod (hnumber.prod (hhash.prod (hhash.prod hdigest)))
  have hpair : (scaleCompact.prod scaleKateCommitment).Canonical := hlookup.prod hcommitment
  have hextension : ((scaleCompact.prod scaleKateCommitment).variant 2).Canonical := hpair.variant 2
  show (K.parts.prod ((scaleCompact.prod scaleKateCommitment).variant 2)).Canonical
  exact hparts.prod hextension

/-- What is written of a header, with this compact form for its lookup. -/
def Header.sent (h : Header N Out Digest) (c : CompactDataLookup) :
    (Out × N × Out × Out × Digest) × CompactDataLookup × KateCommitment := (h.parts, c, h.extension.commitment)

theorem Header.encode_eq (h : Header N Out Digest) :
    h.encode K = K.wire.encode (h.sent (fromDataLookup h.extension.appLookup)) := by
  obtain ⟨parentHash, number, stateRoot, extrinsicsRoot, digest, ⟨ext⟩⟩ := h
  simp only [Header.encode, HeaderExtension.encode, DataLookup.encode, HeaderCodecs.wire, Codec.prod, Codec.variant,
    Header.sent, HeaderExtension.appLookup, HeaderExtension.commitment, Option.bind_eq_bind, Option.pure_def,
    Option.map_bind, Function.comp_def, Option.map_some]

theorem HeaderExtension.decode_eq_ok_iff {ext : HeaderExtension} {input rest : List UInt8} :
    HeaderExtension.decode input = .ok (ext, rest) ↔ ∃ c, tryFrom c = .ok ext.appLookup ∧
      ((scaleCompact.prod scaleKateCommitment).variant 2).decode input = some ((c, ext.commitment), rest) := by
  obtain ⟨appLookup, commitment⟩ := ext
  cases input with
  | nil =>
    refine iff_of_false nofun fun h => ?_
    obtain ⟨c, -, h⟩ := h
    cases h
  | cons i input =>
    simp only [HeaderExtension.decode, HeaderExtension.appLookup, HeaderExtension.commitment, Codec.variant,
      DataLookup.decode, Except.bind_eq_ok, Run.ensure_eq_ok, Run.okOr_eq_ok, Run.mapErr_eq_ok, Except.pure_eq_ok,
      Except.ok.injEq, decide_eq_true_eq]
    constructor
    · intro h
      obtain ⟨-, rfl, ⟨lookup, after⟩, ⟨⟨c, _⟩, hc, _, hlookup, heq⟩, ⟨_, _⟩, hcommitment, hext⟩ := h
      cases heq
      cases hext
      refine ⟨c, hlookup, ?_⟩
      simp [Codec.prod, hc, hcommitment]
    · intro h
      obtain ⟨c, hlookup, h⟩ := h
      split_ifs at h with hi
      simp only [Codec.prod, Option.bind_eq_bind, Option.bind_eq_some_iff, Option.pure_def, Option.some.injEq] at h
      obtain ⟨⟨_, after⟩, hc, ⟨_, _⟩, hcommitment, heq⟩ := h
      cases heq
      exact ⟨(), hi, _, ⟨_, hc, appLookup, hlookup, rfl⟩, _, hcommitment, rfl⟩

/-- **What bytes are decoded to**: the parts that are written, and the lookup of the compact form. -/
theorem Header.decode_eq_ok_iff {h : Header N Out Digest} {input rest : List UInt8} :
    Header.decode K input = .ok (h, rest) ↔
      ∃ c, tryFrom c = .ok h.extension.appLookup ∧ K.wire.decode input = some (h.sent c, rest) := by
  simp only [Header.decode, HeaderCodecs.wire, Codec.prod, Except.bind_eq_ok, Run.okOr_eq_ok, Except.pure_eq_ok,
    Except.ok.injEq, Option.bind_eq_bind, Option.bind_eq_some_iff, Option.pure_def, Option.some.injEq]
  constructor
  · intro hdec
    obtain ⟨⟨⟨parentHash, number, stateRoot, extrinsicsRoot, digest⟩, after⟩, hparts, ⟨ext, _⟩, hext, heq⟩ := hdec
    cases heq
    obtain ⟨c, hlookup, hext⟩ := HeaderExtension.decode_eq_ok_iff.mp hext
    exact ⟨c, hlookup, _, hparts, _, hext, rfl⟩
  · intro hdec
    obtain ⟨c, hlookup, ⟨⟨_, after⟩, hparts, ⟨_, _⟩, hext, heq⟩⟩ := hdec
    cases heq
    exact ⟨_, hparts, _, HeaderExtension.decode_eq_ok_iff.mpr ⟨c, hlookup, hext⟩, rfl⟩

/-- The bytes of a header and of no other: of two with the same bytes, all is the same but the lookups, and these have
one compact form. -/
theorem Header.sent_inj {h h' : Header N Out Digest} {c c' : CompactDataLookup} : h.sent c = h'.sent c' ↔
    h.parts = h'.parts ∧ h.extension.commitment = h'.extension.commitment ∧ c = c' := by
  constructor
  · intro heq
    obtain ⟨hparts, hrest⟩ := Prod.mk.inj heq
    obtain ⟨hc, hcommitment⟩ := Prod.mk.inj hrest
    exact ⟨hparts, hcommitment, hc⟩
  · intro heq
    obtain ⟨hparts, hcommitment, hc⟩ := heq
    rw [Header.sent, Header.sent, hparts, hcommitment, hc]

/-- The same header with another lookup. -/
def Header.withLookup (h : Header N Out Digest) (l : DataLookup) : Header N Out Digest :=
  { h with extension := .v3 ⟨l, h.extension.commitment⟩ }

/-- Nothing but the lookup is another. -/
theorem Header.eq_withLookup {h h' : Header N Out Digest} (hparts : h.parts = h'.parts)
    (hcommitment : h.extension.commitment = h'.extension.commitment) : h = h'.withLookup h.extension.appLookup := by
  obtain ⟨parentHash, number, stateRoot, extrinsicsRoot, digest, ⟨lookup, commitment⟩⟩ := h
  simp only [Header.parts, HeaderExtension.commitment, Prod.mk.injEq] at hparts hcommitment
  obtain ⟨rfl, rfl, rfl, rfl, rfl⟩ := hparts
  subst hcommitment
  rfl

end Wire

/-- **The hash of a header is of all of it.** Where the hashing does not collide, two headers with one hash are the same
but for lookups of one compact form, and the same header if their lookups come back from it. -/
theorem header_hash_eq_iff {N Out Digest : Type} {K : HeaderCodecs N Out Digest} {hashing : List UInt8 → Out}
    {h h' : Header N Out Digest} {bytes bytes' : List UInt8} (hbytes : h.encode K = some bytes)
    (hbytes' : h'.encode K = some bytes') (hcollision : hashing bytes = hashing bytes' → bytes = bytes') :
    (h.hash K hashing = h'.hash K hashing ↔ h.parts = h'.parts ∧
      h.extension.commitment = h'.extension.commitment ∧
      fromDataLookup h.extension.appLookup = fromDataLookup h'.extension.appLookup) ∧
    (tryFrom (fromDataLookup h.extension.appLookup) = .ok h.extension.appLookup →
      tryFrom (fromDataLookup h'.extension.appLookup) = .ok h'.extension.appLookup →
      (h.hash K hashing = h'.hash K hashing ↔ h = h')) := by
  have hhash : h.hash K hashing = h'.hash K hashing ↔ h.parts = h'.parts ∧
      h.extension.commitment = h'.extension.commitment ∧
      fromDataLookup h.extension.appLookup = fromDataLookup h'.extension.appLookup := by
    rw [Header.hash, Header.hash, hbytes, hbytes', Option.map_some, Option.map_some, Option.some.injEq,
      ← Header.sent_inj]
    rw [Header.encode_eq] at hbytes hbytes'
    constructor
    · intro heq
      rw [← hcollision heq] at hbytes'
      exact K.wire.encode_inj hbytes hbytes'
    · intro heq
      rw [heq, hbytes', Option.some.injEq] at hbytes
      rw [hbytes]
  refine ⟨hhash, fun hback hback' => ?_⟩
  rw [hhash]
  constructor
  · intro heq
    obtain ⟨hparts, hcommitment, hcompact⟩ := heq
    rw [hcompact, hback', Except.ok.injEq] at hback
    rw [Header.eq_withLookup hparts hcommitment, ← hback]
    obtain ⟨_, _, _, _, _, ⟨_⟩⟩ := h'
    rfl
  · rintro rfl
    exact ⟨rfl, rfl, rfl⟩

/-- The codecs of a header with bytes for its parts. -/
def byteHeader : HeaderCodecs UInt8 UInt8 UInt8 := ⟨byte, byte, byte⟩

/-- Headers that differ in their numbers have different hashes, where these are sums of bytes. -/
theorem header_hash_eq_iff_one :
    (Header.mk 1 7 2 3 4 (HeaderExtension.getEmptyHeader (List.Vector.replicate 32 0) .v3)).hash byteHeader List.sum ≠
      (Header.mk 1 8 2 3 4 (HeaderExtension.getEmptyHeader (List.Vector.replicate 32 0) .v3)).hash byteHeader
        List.sum := by
  have hsame := @header_hash_eq_iff _ _ _ byteHeader List.sum
    ⟨1, 7, 2, 3, 4, HeaderExtension.getEmptyHeader (List.Vector.replicate 32 0) .v3⟩
    ⟨1, 8, 2, 3, 4, HeaderExtension.getEmptyHeader (List.Vector.replicate 32 0) .v3⟩ _ _ rfl rfl
    (fun h => absurd h (by decide))
  rw [Ne, hsame.1]
  exact fun h => absurd h.1 (by decide)

/-! ### Any number of nodes -/

section Nodes

variable {N Out Digest : Type} {K : HeaderCodecs N Out Digest} {h : Header N Out Digest} {c : CompactDataLookup}
  {bytes : List UInt8} (hbytes : K.wire.encode (h.sent c) = some bytes)
include hbytes

/-- Bytes of a header are decoded to it, with the lookup of its compact form. -/
theorem Header.decode_of_wire (rest : List UInt8) {r : Header N Out Digest × List UInt8} :
    Header.decode K (bytes ++ rest) = .ok r ↔ ∃ l, tryFrom c = .ok l ∧ r = (h.withLookup l, rest) := by
  obtain ⟨r, after⟩ := r
  rw [Header.decode_eq_ok_iff, K.wire.decode_encode hbytes]
  constructor
  · intro hdec
    obtain ⟨c', hlookup, heq⟩ := hdec
    rw [Option.some.injEq, Prod.mk.injEq, Header.sent_inj] at heq
    obtain ⟨⟨hparts, hcommitment, rfl⟩, rfl⟩ := heq
    exact ⟨_, hlookup, by rw [← Header.eq_withLookup hparts.symm hcommitment.symm]⟩
  · intro hdec
    obtain ⟨l, hlookup, heq⟩ := hdec
    cases heq
    exact ⟨c, hlookup, rfl⟩

/-- The lengths are those of bytes. -/
theorem length_index_of_wire : c.index.length < 2 ^ 32 := by
  simp only [HeaderCodecs.wire, Codec.prod, Codec.variant, Header.sent, Option.bind_eq_bind, Option.bind_eq_some_iff,
    Option.map_eq_some_iff, Option.pure_def, Option.some.injEq] at hbytes
  obtain ⟨_, -, _, ⟨_, ⟨lookup, hlookup, -⟩, -⟩, -⟩ := hbytes
  simp only [scaleCompact, Codec.iso, Codec.prod, Option.bind_eq_bind, Option.bind_eq_some_iff,
    Option.pure_def] at hlookup
  obtain ⟨_, -, _, hitems, -⟩ := hlookup
  exact (Codec.vec_encode_eq_some.mp hitems).1

theorem length_index_lt : c.index.length + 1 < usizeLimit := by
  have := length_index_of_wire hbytes
  have hlimit : 2 ^ 32 < usizeLimit := by decide
  omega

/-- With fewer items there are bytes too. -/
theorem exists_wire {c' : CompactDataLookup} (hlen : c'.index.length ≤ c.index.length) :
    ∃ bytes', K.wire.encode (h.sent c') = some bytes' := by
  obtain ⟨lookup', hlookup'⟩ := Option.isSome_iff_exists.mp
    (scaleCompact_encode_isSome c' (hlen.trans_lt (length_index_of_wire hbytes)))
  simp only [HeaderCodecs.wire, Codec.prod, Codec.variant, Header.sent, Option.bind_eq_bind, Option.bind_eq_some_iff,
    Option.map_eq_some_iff, Option.pure_def, Option.some.injEq] at hbytes ⊢
  obtain ⟨parts, hparts, _, ⟨_, ⟨_, -, commitment, hcommitment, -⟩, -⟩, -⟩ := hbytes
  exact ⟨_, parts, hparts, _, ⟨_, ⟨lookup', hlookup', commitment, hcommitment, rfl⟩, rfl⟩, rfl⟩

/-- **One node sends on the header with what it sends on of the lookup.** -/
theorem forward_eq_ok_iff {rest sent : List UInt8} : forward K (bytes ++ rest) = .ok sent ↔
    ∃ c' bytes', c.relay = .ok c' ∧ K.wire.encode (h.sent c') = some bytes' ∧ sent = bytes' ++ rest := by
  simp only [forward, Except.bind_eq_ok, Header.decode_of_wire hbytes, Run.unwrap_eq_ok, Except.pure_eq_ok,
    Except.ok.injEq, relay]
  constructor
  · intro hforward
    obtain ⟨_, ⟨l, hl, rfl⟩, bytes', hbytes', rfl⟩ := hforward
    rw [Header.encode_eq] at hbytes'
    exact ⟨_, bytes', ⟨l, hl, rfl⟩, hbytes', rfl⟩
  · intro hforward
    obtain ⟨_, bytes', ⟨l, hl, rfl⟩, hbytes', rfl⟩ := hforward
    refine ⟨_, ⟨l, hl, rfl⟩, bytes', ?_, rfl⟩
    rw [Header.encode_eq]
    exact hbytes'

/-- A lookup that a node refuses is an error of the header. -/
theorem forward_eq_fail {e : DataLookupError} (hrelay : c.relay = Run.fail e) (rest : List UInt8) :
    forward K (bytes ++ rest) = Run.fail (.custom "Invalid `DataLookup`") := by
  have htryFrom : tryFrom c = Run.fail e := by
    cases hlookup : tryFrom c with
    | ok l =>
      rw [relay, hlookup] at hrelay
      cases hrelay
    | error s =>
      rw [relay, hlookup] at hrelay
      rw [Except.error.inj hrelay]
      rfl
  have hdec := K.wire.decode_encode hbytes rest
  simp only [HeaderCodecs.wire, Codec.prod, Option.bind_eq_bind, Option.bind_eq_some_iff, Option.pure_def,
    Option.some.injEq] at hdec
  obtain ⟨⟨_, after⟩, hparts, ⟨_, _⟩, hext, heq⟩ := hdec
  cases heq
  cases after with
  | nil => cases hext
  | cons i after =>
    simp only [Codec.variant] at hext
    split_ifs at hext with hi
    simp only [Option.bind_eq_some_iff] at hext
    obtain ⟨⟨_, _⟩, hlookup, ⟨_, _⟩, -, heq⟩ := hext
    cases heq
    have hext' : HeaderExtension.decode (i :: after) = Run.fail (.custom "Invalid `DataLookup`") := by
      simp only [HeaderExtension.decode, hi, DataLookup.decode, hlookup, Run.okOr_some, Except.ok_bind, htryFrom,
        decide_true, Run.ensure_true]
      rfl
    simp only [forward, Header.decode, hparts, Run.okOr_some, Except.ok_bind, hext']
    rfl

section Length

variable (hc : c.isError = false)
include hc

/-- The lookup that is sent on has an index that is no longer, and is no error marker. -/
theorem relay_of_wire {c' : CompactDataLookup} (hrelay : c.relay = .ok c') :
    c'.isError = false ∧ ∃ bytes', K.wire.encode (h.sent c') = some bytes' := by
  obtain ⟨-, rfl⟩ := (relay_eq_ok_iff hc (length_index_lt hbytes)).mp hrelay
  have hsublist : (c.ranged.filter fun x => x.appId ≠ ⟨0⟩).Sublist c.index :=
    List.filter_sublist.trans c.ranged_sublist
  exact ⟨isError_sent hc hsublist, exists_wire hbytes hsublist.length_le⟩

/-- **So do any number of nodes.** -/
theorem forwarded_eq_ok_iff (n : ℕ) {rest sent : List UInt8} : forwarded K n (bytes ++ rest) = .ok sent ↔
    ∃ c' bytes', relayed n c = .ok c' ∧ K.wire.encode (h.sent c') = some bytes' ∧ sent = bytes' ++ rest := by
  induction n generalizing c bytes with
  | zero =>
    rw [forwarded, Except.ok.injEq]
    constructor
    · intro heq
      exact ⟨c, bytes, rfl, hbytes, heq.symm⟩
    · intro heq
      obtain ⟨_, bytes', hc', hbytes', rfl⟩ := heq
      cases hc'
      rw [Option.some.inj (hbytes'.symm.trans hbytes)]
  | succ n ih =>
    simp only [forwarded, relayed, Except.bind_eq_ok]
    constructor
    · intro hforwarded
      obtain ⟨_, hforward, hrest⟩ := hforwarded
      obtain ⟨next, bytes', hrelay, hbytes', rfl⟩ := (forward_eq_ok_iff hbytes).mp hforward
      obtain ⟨c', bytes'', hc', hsent⟩ := (ih hbytes' (relay_of_wire hbytes hc hrelay).1).mp hrest
      exact ⟨c', bytes'', ⟨next, hrelay, hc'⟩, hsent⟩
    · intro hrelayed
      obtain ⟨c', bytes'', ⟨next, hrelay, hc'⟩, hsent⟩ := hrelayed
      obtain ⟨hnext, bytes', hbytes'⟩ := relay_of_wire hbytes hc hrelay
      exact ⟨_, (forward_eq_ok_iff hbytes).mpr ⟨next, bytes', hrelay, hbytes', rfl⟩,
        (ih hbytes' hnext).mpr ⟨c', bytes'', hc', hsent⟩⟩

theorem forwarded_eq_fail {e : DataLookupError} {n : ℕ} (hrelayed : relayed n c = Run.fail e) (rest : List UInt8) :
    forwarded K n (bytes ++ rest) = Run.fail (.custom "Invalid `DataLookup`") := by
  induction n generalizing c bytes with
  | zero => cases hrelayed
  | succ n ih =>
    rw [relayed] at hrelayed
    cases hrelay : c.relay with
    | ok next =>
      rw [hrelay, Except.ok_bind] at hrelayed
      obtain ⟨hnext, bytes', hbytes'⟩ := relay_of_wire hbytes hc hrelay
      rw [forwarded, (forward_eq_ok_iff hbytes).mpr ⟨next, bytes', hrelay, hbytes', rfl⟩, Except.ok_bind]
      exact ih hbytes' hnext hrelayed
    | error s =>
      rw [hrelay] at hrelayed
      have hfail : c.relay = Run.fail e := hrelay.trans hrelayed
      rw [forwarded, forward_eq_fail hbytes hfail]
      rfl

/-- Over as many nodes as the lookup has items, the header has settled. -/
theorem exists_settled (hsettles : c.Settles) (rest : List UInt8) :
    ∃ settled bytes', settled.parts = h.parts ∧ settled.extension.commitment = h.extension.commitment ∧
      settled.encode K = some bytes' ∧ Header.decode K (bytes' ++ rest) = .ok (settled, rest) ∧
      ∀ n ≥ c.index.length, forwarded K n (bytes ++ rest) = .ok (bytes' ++ rest) := by
  have hlen : c.index.length + 1 < usizeLimit := length_index_lt hbytes
  have hfewer : c.settled.index.length ≤ c.index.length :=
    (List.rdropWhile_prefix _ _).length_le.trans (List.length_filter_le _ _)
  obtain ⟨bytes', hbytes'⟩ := exists_wire hbytes hfewer
  have hstays := relay_settled hc hlen hsettles
  simp only [relay, Except.bind_eq_ok, Except.pure_eq_ok, Except.ok.injEq] at hstays
  obtain ⟨l, hl, hcompact⟩ := hstays
  refine ⟨h.withLookup l, bytes', rfl, rfl, ?_, (Header.decode_of_wire hbytes' rest).mpr ⟨l, hl, rfl⟩, ?_⟩
  · rw [Header.encode_eq, ← hbytes', ← hcompact]
    rfl
  · intro n hn
    exact (forwarded_eq_ok_iff hbytes hc n).mpr ⟨_, _, relayed_eq_settled hc hlen hsettles hn, hbytes', rfl⟩

end Length

end Nodes

/-- **A header that is sent on settles, or some node refuses it.** Over as many nodes as its lookup has items, the
bytes are those of the same header with the settled lookup, which have one hash from then on; or the lookup is
refused. -/
theorem forwarded_settles {N Out Digest : Type} {K : HeaderCodecs N Out Digest} (hK : K.Canonical)
    {h : Header N Out Digest} {input rest : List UInt8} (hdec : Header.decode K input = .ok (h, rest)) :
    ∃ c, tryFrom c = .ok h.extension.appLookup ∧ K.wire.decode input = some (h.sent c, rest) ∧ (c.isError = false →
      (c.Settles → ∃ settled bytes, settled.parts = h.parts ∧ settled.extension.commitment = h.extension.commitment ∧
        settled.encode K = some bytes ∧ Header.decode K (bytes ++ rest) = .ok (settled, rest) ∧
        ∀ n ≥ c.index.length, forwarded K n input = .ok (bytes ++ rest)) ∧
      (¬ c.Settles → ∀ n > c.index.length, forwarded K n input = Run.fail (.custom "Invalid `DataLookup`"))) := by
  obtain ⟨c, hlookup, hwire⟩ := Header.decode_eq_ok_iff.mp hdec
  refine ⟨c, hlookup, hwire, fun hc => ?_⟩
  have hcanonical : K.wire.Canonical := hK.wire
  obtain ⟨bytes, hbytes, rfl⟩ := hcanonical hwire
  refine ⟨fun hsettles => exists_settled hbytes hc hsettles rest, fun hnot n hn => ?_⟩
  exact forwarded_eq_fail hbytes hc (relayed_eq_fail hc (length_index_lt hbytes) hnot hn) rest

/-- A header whose lookup has two items that start at its end. -/
def unsettledHeader : List UInt8 :=
  [1, 7, 2, 3, 4, 2] ++ [20, 12, 4, 12, 8, 20, 12, 20] ++ ([4, 4, 0] ++ List.replicate 32 0)

theorem forwarded_settles_two : ∃ (settled : Header UInt8 UInt8 UInt8) (bytes : List UInt8),
    settled.parts = (1, 7, 2, 3, 4) ∧ settled.encode byteHeader = some bytes ∧
      ∀ n ≥ 3, forwarded byteHeader n (unsettledHeader ++ [9]) = .ok (bytes ++ [9]) := by
  have hK : byteHeader.Canonical := ⟨byte_canonical, byte_canonical, byte_canonical⟩
  have hdec : Header.decode byteHeader (unsettledHeader ++ [9]) = .ok (⟨1, 7, 2, 3, 4, .v3
      ⟨⟨[(⟨0⟩, ⟨0, 3⟩), (⟨1⟩, ⟨3, 5⟩), (⟨2⟩, ⟨5, 5⟩)]⟩, 1, 1, [], List.Vector.replicate 32 0⟩⟩, [9]) := rfl
  have hform : byteHeader.wire.decode (unsettledHeader ++ [9]) = some (((1, 7, 2, 3, 4),
      CompactDataLookup.mk 5 [⟨⟨1⟩, 3⟩, ⟨⟨2⟩, 5⟩, ⟨⟨3⟩, 5⟩],
      KateCommitment.mk 1 1 [] (List.Vector.replicate 32 0)), [9]) := rfl
  obtain ⟨c, -, hwire, hsettles⟩ := forwarded_settles hK hdec
  obtain rfl : c = ⟨5, [⟨⟨1⟩, 3⟩, ⟨⟨2⟩, 5⟩, ⟨⟨3⟩, 5⟩]⟩ := by
    rw [hform, Option.some.injEq, Prod.mk.injEq] at hwire
    exact (Prod.mk.inj (Prod.mk.inj hwire.1).2).1.symm
  obtain ⟨settled, bytes, hparts, -, hbytes, -, hforwarded⟩ := (hsettles (by decide)).1 ⟨by decide, by decide⟩
  exact ⟨settled, bytes, hparts, hbytes, hforwarded⟩

/-! ### Headers of no block -/

section NoBlock

variable {N Out Digest : Type} {K : HeaderCodecs N Out Digest} {h : Header N Out Digest} {bytes : List UInt8}
  (hbytes : h.encode K = some bytes) (rest : List UInt8)
include hbytes

/-- Bytes that are read as the header that they are of are sent on as they are. -/
theorem forwarded_of_decode (hdec : Header.decode K (bytes ++ rest) = .ok (h, rest)) (n : ℕ) :
    forwarded K n (bytes ++ rest) = .ok (bytes ++ rest) := by
  have hforward : forward K (bytes ++ rest) = .ok (bytes ++ rest) := by
    simp only [forward, hdec, Except.ok_bind, hbytes, Run.unwrap_some, Except.pure_eq_ok]
  induction n with
  | zero => rfl
  | succ n ih => rw [forwarded, hforward, Except.ok_bind, ih]

/-- **The headers of an empty and of a faulty block go over any number of nodes as they are**, and every node can tell
which one it is. -/
theorem forwarded_of_noBlock {dataRoot : H256} {version : HeaderVersion}
    (hextension : h.extension = .getEmptyHeader dataRoot version ∨ h.extension = .getFaultyHeader dataRoot version)
    (n : ℕ) :
    forwarded K n (bytes ++ rest) = .ok (bytes ++ rest) ∧ Header.decode K (bytes ++ rest) = .ok (h, rest) ∧
      h.extension.getHeaderVersion = version ∧ h.extension.dataRoot = dataRoot ∧
      (h.extension.appLookup.isError = true ↔ h.extension = .getFaultyHeader dataRoot version) := by
  have hlookup : tryFrom (fromDataLookup h.extension.appLookup) = .ok h.extension.appLookup := by
    rcases hextension with hempty | hfaulty
    · rw [hempty]
      rfl
    · rw [hfaulty]
      rfl
  have hdec : Header.decode K (bytes ++ rest) = .ok (h, rest) := by
    refine (Header.decode_of_wire (Header.encode_eq h ▸ hbytes) rest).mpr ⟨_, hlookup, ?_⟩
    rw [← Header.eq_withLookup rfl rfl]
  refine ⟨forwarded_of_decode hbytes rest hdec n, hdec, ?_⟩
  rcases hextension with hempty | hfaulty
  · rw [hempty]
    cases version
    refine ⟨rfl, rfl, iff_of_false (by simp [HeaderExtension.getEmptyHeader, HeaderExtension.appLookup,
      DataLookup.newEmpty, DataLookup.isError]) ?_⟩
    simp [HeaderExtension.getEmptyHeader, HeaderExtension.getFaultyHeader, DataLookup.newEmpty, DataLookup.newError]
  · rw [hfaulty]
    exact ⟨rfl, rfl, iff_of_true rfl rfl⟩

end NoBlock

end AvailCore
