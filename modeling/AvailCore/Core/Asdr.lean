import AvailCore.Foundation.Codec
import AvailCore.Foundation.Run
import AvailCore.Foundation.Word

/-!
# Extrinsics, as they are sent

`core/src/asdr.rs` and `core/src/opaque_extrinsic.rs`. An `AppUncheckedExtrinsic` is sent
as a vector of bytes: its length, a version byte with a bit that says whether it is
signed, the signature payload if it is, and the call. An `OpaqueExtrinsic` is the same
vector, not looked into.

## The model

The address, the call, the signature and the extra data are any types with codecs. Input
is a byte slice, which knows how much of it remains; a decoder returns what it leaves of
it. Where an encoder panics it has no bytes. An error of the codec of a part is one error.

## What is proved

`IsBody` is the format without its length. With canonical codecs of the parts, decoding
is the inverse of encoding (`decode_iff_encode`). The two ways to open an opaque
extrinsic agree exactly when nothing follows the call (`opensAlike_iff`).
-/

namespace AvailCore

/-- `EXTRINSIC_FORMAT_VERSION` -/
def extrinsicFormatVersion : UInt8 := 4

/-- `codec::Error` -/
inductive CodecError where
  /-- Of a part. -/
  | part
  /-- With this text. -/
  | text (s : String)
  deriving DecidableEq, Repr

/-- `AppUncheckedExtrinsic` -/
structure AppUncheckedExtrinsic (Address Call Signature Extra : Type) where
  signature : Option (Address × Signature × Extra)
  function : Call
  deriving DecidableEq, Repr

/-- `OpaqueExtrinsic` -/
structure OpaqueExtrinsic where
  bytes : List UInt8
  deriving DecidableEq, Repr

/-- The codecs of the parts of an extrinsic. -/
structure ExtrinsicCodecs (Address Call Signature Extra : Type) where
  address : Codec Address
  call : Codec Call
  signature : Codec Signature
  extra : Codec Extra

section Extrinsic

variable {Address Call Signature Extra : Type} (K : ExtrinsicCodecs Address Call Signature Extra)

/-- The codec of `SignaturePayload`, a tuple. -/
def ExtrinsicCodecs.payload : Codec (Address × Signature × Extra) := K.address.prod (K.signature.prod K.extra)

namespace AppUncheckedExtrinsic

/-- `is_signed.then(|| Decode::decode(input)).transpose()` -/
def decodeSignature (isSigned : Bool) (input : List UInt8) :
    Run CodecError (Option (Address × Signature × Extra) × List UInt8) :=
  if isSigned then do
    let (signature, input) ← Run.okOr .part (K.payload.decode input)
    return (some signature, input)
  else return (none, input)

/-- `AppUncheckedExtrinsic::decode_no_vec_prefix` -/
def decodeNoVecPrefix (input : List UInt8) :
    Run CodecError (AppUncheckedExtrinsic Address Call Signature Extra × List UInt8) := do
  let (version, input) ← Run.okOr .part (byte.decode input)
  let isSigned := version &&& 0b10000000 != 0
  let version := version &&& 0b01111111
  Run.ensure (version = extrinsicFormatVersion) (.text "Invalid transaction version")
  let (signature, input) ← decodeSignature K isSigned input
  let (function, input) ← Run.okOr .part (K.call.decode input)
  return (⟨signature, function⟩, input)

/-- `AppUncheckedExtrinsic::decode` -/
def decode (input : List UInt8) :
    Run CodecError (AppUncheckedExtrinsic Address Call Signature Extra × List UInt8) := do
  let (expectedLength, input) ← Run.okOr .part (compact.decode input)
  let beforeLength := input.length
  let (extrinsic, input) ← decodeNoVecPrefix K input
  let length := beforeLength - input.length
  Run.ensure (length = expectedLength.toNat) (.text "Invalid length prefix")
  return (extrinsic, input)

/-- The version byte, with the signature payload if there is one. -/
def encodeSignature : Option (Address × Signature × Extra) → Option (List UInt8)
  | some s => (K.payload.encode s).map fun bytes => (extrinsicFormatVersion ||| 0b10000000) :: bytes
  | none => some [extrinsicFormatVersion &&& 0b01111111]

/-- The version, the signature payload and the call: what `encode` puts the length before. -/
def encodeBody (x : AppUncheckedExtrinsic Address Call Signature Extra) : Option (List UInt8) := do
  let tmp ← encodeSignature K x.signature
  let bytes ← K.call.encode x.function
  return tmp ++ bytes

/-- `AppUncheckedExtrinsic::encode`: the length is what `as u32` makes of it. -/
def encode (x : AppUncheckedExtrinsic Address Call Signature Extra) : Option (List UInt8) := do
  let tmp ← encodeBody K x
  let compactLen := compactBytes (UInt32.ofNat tmp.length).toNat
  let _ ← usizeCheckedAdd compactLen.length tmp.length
  return compactLen ++ tmp

/-- The length of what is encoded fits a `u32`. -/
def Short (x : AppUncheckedExtrinsic Address Call Signature Extra) : Prop :=
  ∀ body, encodeBody K x = some body → body.length < 2 ^ 32

end AppUncheckedExtrinsic

/-- The codec of `OpaqueExtrinsic`, that of its vector. -/
def opaqueCodec : Codec OpaqueExtrinsic := byte.vec.iso OpaqueExtrinsic.mk OpaqueExtrinsic.bytes fun _ => rfl

/-- `OpaqueExtrinsic::from_bytes` -/
def OpaqueExtrinsic.fromBytes (bytes : List UInt8) : Run CodecError OpaqueExtrinsic := do
  let (x, _) ← Run.okOr .part (opaqueCodec.decode bytes)
  return x

/-- `OpaqueExtrinsic::from` -/
def OpaqueExtrinsic.fromExtrinsic (extrinsic : AppUncheckedExtrinsic Address Call Signature Extra) :
    Run CodecError OpaqueExtrinsic := do
  let bytes ← Run.unwrap (extrinsic.encode K)
  Run.expect (OpaqueExtrinsic.fromBytes bytes)

/-- `AppUncheckedExtrinsic::try_from` -/
def AppUncheckedExtrinsic.tryFrom (x : OpaqueExtrinsic) :
    Run CodecError (AppUncheckedExtrinsic Address Call Signature Extra) := do
  let (extrinsic, _) ← decodeNoVecPrefix K x.bytes
  return extrinsic

end Extrinsic

/-- The address, the signature and the extra data are bytes, the call is a vector of them. -/
def byteCodecs : ExtrinsicCodecs UInt8 (List UInt8) UInt8 UInt8 := ⟨byte, byte.vec, byte, byte⟩

/-! ### The format -/

/-- A version byte is the version, with or without the bit for a signature. -/
theorem version_eq_iff (v : UInt8) : v &&& 0b01111111 = extrinsicFormatVersion ↔
    v = extrinsicFormatVersion ||| 0b10000000 ∨ v = extrinsicFormatVersion &&& 0b01111111 := by
  have hmod : (v &&& 0b01111111).toNat = v.toNat % 128 := by
    rw [UInt8.toNat_and]
    exact Nat.and_two_pow_sub_one_eq_mod v.toNat 7
  have hlt := v.toNat_lt
  have hsigned : (extrinsicFormatVersion ||| 0b10000000).toNat = 132 := rfl
  have hunsigned : (extrinsicFormatVersion &&& 0b01111111).toNat = 4 := rfl
  have hversion : extrinsicFormatVersion.toNat = 4 := rfl
  rw [← UInt8.toNat_inj, ← UInt8.toNat_inj, ← UInt8.toNat_inj, hmod, hsigned, hunsigned, hversion]
  omega

theorem signedBit : ((extrinsicFormatVersion ||| 0b10000000) &&& 0b10000000 != 0) = true := rfl

theorem unsignedBit : ((extrinsicFormatVersion &&& 0b01111111) &&& 0b10000000 != 0) = false := rfl

section Extrinsic

variable {Address Call Signature Extra : Type} {K : ExtrinsicCodecs Address Call Signature Extra}
  {x : AppUncheckedExtrinsic Address Call Signature Extra}

/-- The format of an extrinsic without its length, and what follows it. -/
inductive IsBody (K : ExtrinsicCodecs Address Call Signature Extra) :
    List UInt8 → AppUncheckedExtrinsic Address Call Signature Extra → List UInt8 → Prop
  | signed {bytes payload rest function rest'} : K.payload.decode bytes = some (payload, rest) →
      K.call.decode rest = some (function, rest') →
      IsBody K ((extrinsicFormatVersion ||| 0b10000000) :: bytes) ⟨some payload, function⟩ rest'
  | unsigned {bytes function rest} : K.call.decode bytes = some (function, rest) →
      IsBody K ((extrinsicFormatVersion &&& 0b01111111) :: bytes) ⟨none, function⟩ rest

namespace AppUncheckedExtrinsic

/-- There is a signature payload when the version says so. -/
theorem decodeSignature_eq_ok_iff {isSigned : Bool} {input rest : List UInt8}
    {signature : Option (Address × Signature × Extra)} :
    decodeSignature K isSigned input = .ok (signature, rest) ↔
      (∃ payload, isSigned = true ∧ signature = some payload ∧ K.payload.decode input = some (payload, rest)) ∨
        isSigned = false ∧ signature = none ∧ rest = input := by
  cases isSigned with
  | true =>
    simp only [decodeSignature, if_true, Except.bind_eq_ok, Run.okOr_eq_ok, Except.pure_eq_ok, Except.ok.injEq,
      Prod.mk.injEq, true_and, Bool.true_eq_false, false_and, or_false]
    constructor
    · intro h
      obtain ⟨⟨payload, rest⟩, hpayload, rfl, rfl⟩ := h
      exact ⟨payload, rfl, hpayload⟩
    · intro h
      obtain ⟨payload, rfl, hpayload⟩ := h
      exact ⟨(payload, rest), hpayload, rfl, rfl⟩
  | false =>
    simp only [decodeSignature, Bool.false_eq_true, if_false, Except.pure_eq_ok, Except.ok.injEq, Prod.mk.injEq,
      false_and, exists_false, false_or, true_and]
    rw [eq_comm, @eq_comm _ rest]

/-- **The format**, without the length. -/
theorem decodeNoVecPrefix_eq_ok_iff {input rest : List UInt8} :
    decodeNoVecPrefix K input = .ok (x, rest) ↔ IsBody K input x rest := by
  simp only [decodeNoVecPrefix, Except.bind_eq_ok, Run.okOr_eq_ok, Run.ensure_eq_ok, decide_eq_true_eq,
    version_eq_iff, Except.pure_eq_ok, Except.ok.injEq]
  constructor
  · intro h
    obtain ⟨⟨version, input'⟩, hversion, -, hcases, ⟨signature, input''⟩, hsignature, ⟨function, rest'⟩, hcall, heq⟩ := h
    cases heq
    rw [decodeSignature_eq_ok_iff] at hsignature
    cases input with
    | nil => cases hversion
    | cons v bytes =>
      cases hversion
      rcases hcases with rfl | rfl
      · rcases hsignature with ⟨payload, -, rfl, hpayload⟩ | ⟨hbit, -⟩
        · exact .signed hpayload hcall
        · cases signedBit.symm.trans hbit
      · rcases hsignature with ⟨payload, hbit, -⟩ | ⟨-, rfl, rfl⟩
        · cases unsignedBit.symm.trans hbit
        · exact .unsigned hcall
  · intro h
    cases h with
    | signed hpayload hcall =>
      exact ⟨_, rfl, (), Or.inl rfl, (some _, _),
        decodeSignature_eq_ok_iff.mpr (Or.inl ⟨_, signedBit, rfl, hpayload⟩), _, hcall, rfl⟩
    | unsigned hcall =>
      exact ⟨_, rfl, (), Or.inr rfl, (none, _), decodeSignature_eq_ok_iff.mpr (Or.inr ⟨unsignedBit, rfl, rfl⟩),
        _, hcall, rfl⟩

/-- What is encoded is read, whatever follows it. -/
theorem isBody_of_encodeBody {body : List UInt8}
    (h : encodeBody K x = some body) (rest : List UInt8) : IsBody K (body ++ rest) x rest := by
  simp only [encodeBody, Option.bind_eq_bind, Option.bind_eq_some_iff, Option.pure_def, Option.some.injEq] at h
  obtain ⟨tmp, htmp, bytes, hbytes, rfl⟩ := h
  obtain ⟨signature, function⟩ := x
  rw [List.append_assoc]
  cases signature with
  | none =>
    cases htmp
    exact .unsigned (K.call.decode_encode hbytes rest)
  | some payload =>
    obtain ⟨bytes', hpayload, rfl⟩ := Option.map_eq_some_iff.mp htmp
    exact .signed (K.payload.decode_encode hpayload _) (K.call.decode_encode hbytes rest)

theorem compact_encode_ofNat {n : ℕ} (h : n < 2 ^ 32) : compact.encode (UInt32.ofNat n) = some (compactBytes n) :=
  congrArg (fun n => some (compactBytes n)) (toNat_ofNat_of_lt h)

theorem length_compactBytes_le (n : ℕ) : (compactBytes n).length ≤ 5 := by
  unfold compactBytes
  split_ifs <;> simp

/-- The length and the body. -/
theorem encode_eq_some {body : List UInt8} (h : encodeBody K x = some body) (hlt : body.length < 2 ^ 32) :
    encode K x = some (compactBytes body.length ++ body) := by
  have hlen : (UInt32.ofNat body.length).toNat = body.length := toNat_ofNat_of_lt hlt
  have hsize : (compactBytes body.length).length + body.length < usizeLimit := by
    have hle := length_compactBytes_le body.length
    have hlimit : 5 + 2 ^ 32 < usizeLimit := by decide
    omega
  simp only [encode, h, Option.bind_eq_bind, Option.bind_some, hlen, usizeCheckedAdd, if_pos hsize]
  rfl

/-- **What is decoded**: a body, of the length that stands before it. -/
theorem decode_eq_ok_iff {input rest : List UInt8} :
    decode K input = .ok (x, rest) ↔ ∃ n input', compact.decode input = some (n, input') ∧ IsBody K input' x rest ∧
      input'.length - rest.length = n.toNat := by
  simp only [decode, Except.bind_eq_ok, Run.okOr_eq_ok, Run.ensure_eq_ok, decide_eq_true_eq, Except.pure_eq_ok,
    Except.ok.injEq]
  constructor
  · intro h
    obtain ⟨⟨n, input'⟩, hlength, ⟨x', rest'⟩, hbody, -, heq, hx⟩ := h
    cases hx
    exact ⟨n, input', hlength, decodeNoVecPrefix_eq_ok_iff.mp hbody, heq⟩
  · intro h
    obtain ⟨n, input', hlength, hbody, heq⟩ := h
    exact ⟨(n, input'), hlength, (x, rest), decodeNoVecPrefix_eq_ok_iff.mpr hbody, (), heq, rfl⟩

/-- What is encoded is decoded, whatever follows it. -/
theorem decode_encode {body : List UInt8}
    (h : encodeBody K x = some body) (hlt : body.length < 2 ^ 32) (rest : List UInt8) :
    decode K (compactBytes body.length ++ body ++ rest) = .ok (x, rest) := by
  have hlen : (UInt32.ofNat body.length).toNat = body.length := toNat_ofNat_of_lt hlt
  rw [decode_eq_ok_iff, List.append_assoc]
  refine ⟨_, _, compact.decode_encode (compact_encode_ofNat hlt) _, isBody_of_encodeBody h rest, ?_⟩
  rw [hlen, List.length_append, Nat.add_sub_cancel]

end AppUncheckedExtrinsic

/-- The codecs of the parts read only what they write. -/
structure ExtrinsicCodecs.Canonical (K : ExtrinsicCodecs Address Call Signature Extra) : Prop where
  address : K.address.Canonical
  call : K.call.Canonical
  signature : K.signature.Canonical
  extra : K.extra.Canonical

theorem ExtrinsicCodecs.Canonical.payload (hK : K.Canonical) : K.payload.Canonical :=
  Codec.Canonical.prod hK.address (Codec.Canonical.prod hK.signature hK.extra)

namespace AppUncheckedExtrinsic

/-- Then a body that is read is the one that is encoded. -/
theorem encodeBody_of_isBody (hK : K.Canonical) {input rest : List UInt8} (h : IsBody K input x rest) :
    ∃ body, encodeBody K x = some body ∧ input = body ++ rest := by
  cases h with
  | signed hpayload hcall =>
    obtain ⟨bytes, hbytes, rfl⟩ := hK.payload hpayload
    obtain ⟨bytes', hbytes', rfl⟩ := hK.call hcall
    refine ⟨(extrinsicFormatVersion ||| 0b10000000) :: bytes ++ bytes', ?_, ?_⟩
    · simp [encodeBody, encodeSignature, hbytes, hbytes']
    · rw [List.cons_append, List.cons_append, List.append_assoc]
  | unsigned hcall =>
    obtain ⟨bytes, hbytes, rfl⟩ := hK.call hcall
    refine ⟨(extrinsicFormatVersion &&& 0b01111111) :: bytes, ?_, rfl⟩
    simp [encodeBody, encodeSignature, hbytes]

/-- **Decoding is the inverse of encoding**: what is encoded is decoded, and only that. -/
theorem decode_iff_encode (hK : K.Canonical) :
    (∀ x body, encodeBody K x = some body → body.length < 2 ^ 32 → ∀ s, ∃ bytes, encode K x = some bytes ∧
      decode K (bytes ++ s) = .ok (x, s)) ∧
    (∀ b x s, decode K b = .ok (x, s) → ∃ bytes, encode K x = some bytes ∧ b = bytes ++ s) ∧
    ∀ b b' x s, decode K b = .ok (x, s) → decode K b' = .ok (x, s) → b = b' := by
  have hback : ∀ b x s, decode K b = .ok (x, s) → ∃ bytes, encode K x = some bytes ∧ b = bytes ++ s := by
    intro b x s h
    obtain ⟨n, input, hlength, hbody, heq⟩ := decode_eq_ok_iff.mp h
    obtain ⟨body, hencode, rfl⟩ := encodeBody_of_isBody hK hbody
    rw [List.length_append, Nat.add_sub_cancel] at heq
    obtain ⟨bytes, hbytes, rfl⟩ := compact_canonical hlength
    cases hbytes
    refine ⟨_, encode_eq_some hencode (heq ▸ n.toNat_lt), ?_⟩
    rw [heq, List.append_assoc]
  refine ⟨?_, hback, ?_⟩
  · intro x body h hlt s
    exact ⟨_, encode_eq_some h hlt, decode_encode h hlt s⟩
  · intro b b' x s h h'
    obtain ⟨bytes, hbytes, rfl⟩ := hback b x s h
    obtain ⟨bytes', hbytes', rfl⟩ := hback b' x s h'
    rw [hbytes] at hbytes'
    cases hbytes'
    rfl

theorem decode_iff_encode_bytes :
    (∀ x body, encodeBody byteCodecs x = some body → body.length < 2 ^ 32 → ∀ s, ∃ bytes,
      encode byteCodecs x = some bytes ∧ decode byteCodecs (bytes ++ s) = .ok (x, s)) ∧
    (∀ b x s, decode byteCodecs b = .ok (x, s) → ∃ bytes, encode byteCodecs x = some bytes ∧ b = bytes ++ s) ∧
    ∀ b b' x s, decode byteCodecs b = .ok (x, s) → decode byteCodecs b' = .ok (x, s) → b = b' :=
  decode_iff_encode ⟨byte_canonical, Codec.Canonical.vec byte_canonical, byte_canonical, byte_canonical⟩

end AppUncheckedExtrinsic

/-! ### Opaque extrinsics -/

theorem opaqueCodec_encode {o : OpaqueExtrinsic} (ho : o.bytes.length < 2 ^ 32) :
    opaqueCodec.encode o = some (compactBytes o.bytes.length ++ o.bytes) := by
  simp only [opaqueCodec, Codec.iso, Codec.vec, if_pos ho, encodeAll_byte, Option.map_some]

/-- What follows a body is what is left of its bytes. -/
theorem IsBody.rest_unique {input rest rest' : List UInt8}
    (h : IsBody K input x rest) (h' : IsBody K input x rest') : rest = rest' := by
  rw [← AppUncheckedExtrinsic.decodeNoVecPrefix_eq_ok_iff] at h h'
  rw [h] at h'
  cases h'
  rfl

theorem IsBody.length_pos {input rest : List UInt8} (h : IsBody K input x rest) : 0 < input.length := by
  cases h with
  | signed _ _ => exact Nat.succ_pos _
  | unsigned _ => exact Nat.succ_pos _

namespace AppUncheckedExtrinsic

/-- `try_from` does not look at what follows the call. -/
theorem tryFrom_eq_ok_iff {o : OpaqueExtrinsic} :
    tryFrom K o = .ok x ↔ ∃ rest, IsBody K o.bytes x rest := by
  simp only [tryFrom, Except.bind_eq_ok, Except.pure_eq_ok, Except.ok.injEq]
  constructor
  · intro h
    obtain ⟨⟨_, rest⟩, hbody, rfl⟩ := h
    exact ⟨rest, decodeNoVecPrefix_eq_ok_iff.mp hbody⟩
  · intro h
    obtain ⟨rest, hbody⟩ := h
    exact ⟨(x, rest), decodeNoVecPrefix_eq_ok_iff.mpr hbody, rfl⟩

/-- `decode` does: the length that stands before an opaque extrinsic is all of it. -/
theorem decode_opaque_iff {o : OpaqueExtrinsic} (ho : o.bytes.length < 2 ^ 32) {rest : List UInt8} :
    decode K (compactBytes o.bytes.length ++ o.bytes) = .ok (x, rest) ↔ IsBody K o.bytes x [] ∧ rest = [] := by
  have hlen : (UInt32.ofNat o.bytes.length).toNat = o.bytes.length := toNat_ofNat_of_lt ho
  have hcompact : compact.decode (compactBytes o.bytes.length ++ o.bytes) =
      some (UInt32.ofNat o.bytes.length, o.bytes) :=
    compact.decode_encode (compact_encode_ofNat ho) o.bytes
  rw [decode_eq_ok_iff]
  constructor
  · intro h
    obtain ⟨n, input, hn, hbody, heq⟩ := h
    rw [hcompact] at hn
    cases hn
    rw [hlen] at heq
    have hpos := hbody.length_pos
    have hnil : rest = [] := List.eq_nil_of_length_eq_zero (by omega)
    exact ⟨hnil ▸ hbody, hnil⟩
  · intro h
    obtain ⟨hbody, rfl⟩ := h
    exact ⟨_, _, hcompact, hbody, hlen.symm⟩

/-- An extrinsic whose body fits is the same after a conversion to an opaque extrinsic and back. -/
theorem exists_fromExtrinsic {body : List UInt8} (h : encodeBody K x = some body) (hlt : body.length < 2 ^ 32) :
    ∃ o, OpaqueExtrinsic.fromExtrinsic K x = .ok o ∧ tryFrom K o = .ok x := by
  have hopaque : OpaqueExtrinsic.fromBytes (compactBytes body.length ++ body) = .ok ⟨body⟩ := by
    have hdecode := opaqueCodec.decode_encode (opaqueCodec_encode (o := ⟨body⟩) hlt) []
    rw [List.append_nil] at hdecode
    simp only [OpaqueExtrinsic.fromBytes, hdecode, Run.okOr_some, Except.ok_bind, Except.pure_eq_ok]
  refine ⟨⟨body⟩, ?_, tryFrom_eq_ok_iff.mpr ⟨[], ?_⟩⟩
  · simp only [OpaqueExtrinsic.fromExtrinsic, encode_eq_some h hlt, Run.unwrap_some, Except.ok_bind, hopaque,
      Run.expect_eq_ok]
  · have hbody := isBody_of_encodeBody h []
    rwa [List.append_nil] at hbody

/-- With canonical codecs of the parts what is opened always fits. -/
theorem exists_fromExtrinsic_of_tryFrom (hK : K.Canonical) {o : OpaqueExtrinsic} (ho : o.bytes.length < 2 ^ 32)
    (h : tryFrom K o = .ok x) :
    ∃ o', OpaqueExtrinsic.fromExtrinsic K x = .ok o' ∧ tryFrom K o' = .ok x := by
  obtain ⟨rest, hbody⟩ := tryFrom_eq_ok_iff.mp h
  obtain ⟨body, hencode, heq⟩ := encodeBody_of_isBody hK hbody
  rw [heq, List.length_append] at ho
  exact exists_fromExtrinsic hencode (by omega)

/-- An opaque extrinsic is opened alike, by `try_from` and by `decode` of its bytes, and an
extrinsic found in it, whose body fits, is the same after a conversion and back. -/
def OpensAlike (K : ExtrinsicCodecs Address Call Signature Extra) (o : OpaqueExtrinsic) : Prop :=
  (∃ bytes, opaqueCodec.encode o = some bytes ∧ ∀ x, tryFrom K o = .ok x ↔ ∃ rest, decode K bytes = .ok (x, rest)) ∧
  ∀ x body, tryFrom K o = .ok x → encodeBody K x = some body → body.length < 2 ^ 32 →
    ∃ o', OpaqueExtrinsic.fromExtrinsic K x = .ok o' ∧ tryFrom K o' = .ok x

/-- **The two ways to open an opaque extrinsic** agree exactly when nothing follows the call. -/
theorem opensAlike_iff {o : OpaqueExtrinsic} (ho : o.bytes.length < 2 ^ 32) :
    OpensAlike K o ↔ ∀ x rest, IsBody K o.bytes x rest → rest = [] := by
  constructor
  · intro h x rest hbody
    obtain ⟨⟨bytes, hbytes, hiff⟩, -⟩ := h
    rw [opaqueCodec_encode ho] at hbytes
    cases hbytes
    obtain ⟨rest', hdecode⟩ := (hiff x).mp (tryFrom_eq_ok_iff.mpr ⟨rest, hbody⟩)
    exact hbody.rest_unique ((decode_opaque_iff ho).mp hdecode).1
  · intro h
    refine ⟨⟨_, opaqueCodec_encode ho, fun x => ?_⟩, fun x body _ hencode hlt => exists_fromExtrinsic hencode hlt⟩
    rw [tryFrom_eq_ok_iff]
    constructor
    · intro hx
      obtain ⟨rest, hbody⟩ := hx
      cases h x rest hbody
      exact ⟨[], (decode_opaque_iff ho).mpr ⟨hbody, rfl⟩⟩
    · intro hx
      obtain ⟨rest, hdecode⟩ := hx
      exact ⟨[], ((decode_opaque_iff ho).mp hdecode).1⟩

theorem opensAlike_iff_empty : OpensAlike byteCodecs ⟨[4, 0]⟩ ↔ ∀ x rest, IsBody byteCodecs [4, 0] x rest → rest = [] :=
  opensAlike_iff (o := ⟨[4, 0]⟩) (by decide)

/-- One byte after an empty call. -/
theorem opensAlike_trailing :
    tryFrom byteCodecs ⟨[4, 0, 7]⟩ = .ok ⟨none, []⟩ ∧ opaqueCodec.encode ⟨[4, 0, 7]⟩ = some [12, 4, 0, 7] ∧
      decode byteCodecs [12, 4, 0, 7] = Run.fail (.text "Invalid length prefix") ∧
      ¬ OpensAlike byteCodecs ⟨[4, 0, 7]⟩ := by
  have htry : tryFrom byteCodecs ⟨[4, 0, 7]⟩ = .ok ⟨none, []⟩ := rfl
  have hbytes : opaqueCodec.encode ⟨[4, 0, 7]⟩ = some [12, 4, 0, 7] := rfl
  have hdecode : decode byteCodecs [12, 4, 0, 7] = Run.fail (.text "Invalid length prefix") := rfl
  refine ⟨htry, hbytes, hdecode, fun h => ?_⟩
  obtain ⟨⟨bytes, hbytes', hiff⟩, -⟩ := h
  cases hbytes.symm.trans hbytes'
  obtain ⟨rest, hrest⟩ := (hiff _).mp htry
  cases hdecode.symm.trans hrest

end AppUncheckedExtrinsic
end Extrinsic

end AvailCore
