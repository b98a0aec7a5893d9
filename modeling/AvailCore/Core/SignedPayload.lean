import AvailCore.Core.Asdr
import AvailCore.Core.DataLookup
import Mathlib.Data.Vector.Basic

/-!
# What a signature of an extrinsic covers

`SignedPayload`, `Checkable::check` and `app_id` of `core/src/asdr.rs`. The signer of an
extrinsic does not sign its bytes but the call, the extra data, which has the application
id, and data that is not sent and that the chain adds; of a payload of more than 256 bytes
it signs the hash.

## The model

A chain is what the runtime is built from: the codecs of the parts, what its extension
adds, its accounts, its signature scheme and the hash. An error of the lookup is one error,
and one of the extension is a code.

Who means what to sign is not in the code, and is any relation of accounts and payloads. No
scheme is assumed to be unforgeable: an extrinsic whose signature is accepted although its
signer meant nothing with these bytes to sign is named (`Forgery`).

## What is proved

Payloads with the same bytes to sign are the same, or there is a collision: of the hash, or
of a hash with a payload of 32 bytes, which is signed as it is (`eq_or_collide`). So the call
and the application of an extrinsic that is checked are those that its signer meant, unless
its signature is forged (`forgery_or_signerMeant_of_check`): no one else can give it another
application.
-/

namespace AvailCore

/-- `TransactionValidityError` -/
inductive TransactionValidityError where
  /-- `InvalidTransaction::BadProof` -/
  | badProof
  /-- `UnknownTransaction::CannotLookup` -/
  | cannotLookup
  /-- Of the extension. -/
  | other (code : UInt8)
  deriving DecidableEq, Repr

/-- `CheckedExtrinsic` -/
structure CheckedExtrinsic (AccountId Call Extra : Type) where
  signed : Option (AccountId × Extra)
  function : Call
  deriving DecidableEq, Repr

/-- `GetAppId` -/
class GetAppId (α : Type) where
  appId : α → AppId

/-- `SignedPayload` -/
structure SignedPayload (Call Extra Additional : Type) where
  call : Call
  extra : Extra
  additionalSigned : Additional
  deriving DecidableEq, Repr

/-- What the types of an extrinsic bring along. -/
structure Chain (Address AccountId Call Signature Extra Additional : Type) extends
    ExtrinsicCodecs Address Call Signature Extra where
  additional : Codec Additional
  /-- `extra.additional_signed()` -/
  additionalSigned : Extra → Run TransactionValidityError Additional
  /-- `lookup.lookup(address)` -/
  lookup : Address → Option AccountId
  /-- `signature.verify(payload, &signer)` -/
  verify : Signature → List UInt8 → AccountId → Bool
  /-- `blake2_256` -/
  blake2_256 : List UInt8 → List.Vector UInt8 32

section Signing

variable {Address AccountId Call Signature Extra Additional : Type}

/-- `AppUncheckedExtrinsic::app_id`, which is that of `AppId::default` for one that is not signed. -/
def AppUncheckedExtrinsic.appId [GetAppId Extra] (x : AppUncheckedExtrinsic Address Call Signature Extra) : AppId :=
  (x.signature.map fun (_, _, extra) => GetAppId.appId extra).getD ⟨0⟩

namespace Chain

variable (X : Chain Address AccountId Call Signature Extra Additional)

/-- `SignedPayload::new` -/
def newPayload (call : Call) (extra : Extra) : Run TransactionValidityError (SignedPayload Call Extra Additional) := do
  let additionalSigned ← X.additionalSigned extra
  return ⟨call, extra, additionalSigned⟩

/-- The bytes of `(Call, Extra, AdditionalSigned)`. -/
def encodePayload (payload : SignedPayload Call Extra Additional) : Option (List UInt8) :=
  (X.call.prod (X.extra.prod X.additional)).encode (payload.call, payload.extra, payload.additionalSigned)

/-- What is signed of these bytes. -/
def toSign (payload : List UInt8) : List UInt8 := if 256 < payload.length then (X.blake2_256 payload).val else payload

/-- `SignedPayload::using_encoded` -/
def usingEncoded (payload : SignedPayload Call Extra Additional) : Option (List UInt8) :=
  (X.encodePayload payload).map X.toSign

/-- `Checkable::check` -/
def check (x : AppUncheckedExtrinsic Address Call Signature Extra) :
    Run TransactionValidityError (CheckedExtrinsic AccountId Call Extra) :=
  match x.signature with
  | some (signed, signature, extra) => do
    let signed ← Run.okOr .cannotLookup (X.lookup signed)
    let rawPayload ← X.newPayload x.function extra
    let payload ← Run.unwrap (X.usingEncoded rawPayload)
    Run.ensure (X.verify signature payload signed) .badProof
    return ⟨some (signed, rawPayload.extra), rawPayload.call⟩
  | none => return ⟨none, x.function⟩

/-- `unchecked_into_checked_i_know_what_i_am_doing` -/
def uncheckedIntoChecked (x : AppUncheckedExtrinsic Address Call Signature Extra) :
    Run TransactionValidityError (CheckedExtrinsic AccountId Call Extra) :=
  match x.signature with
  | some (signed, _, extra) => do
    let signed ← Run.okOr .cannotLookup (X.lookup signed)
    let rawPayload ← X.newPayload x.function extra
    return ⟨some (signed, rawPayload.extra), rawPayload.call⟩
  | none => return ⟨none, x.function⟩

/-! ### Payloads with the same bytes to sign -/

/-- Different bytes of which the same is signed: two with one hash, or one that is the hash of the other. -/
def Collision (bytes bytes' : List UInt8) : Prop :=
  bytes ≠ bytes' ∧
    (256 < bytes.length ∧ 256 < bytes'.length ∧ X.blake2_256 bytes = X.blake2_256 bytes' ∨
      256 < bytes.length ∧ bytes' = (X.blake2_256 bytes).val ∨ 256 < bytes'.length ∧ bytes = (X.blake2_256 bytes').val)

/-- Two payloads whose bytes collide. -/
def Collide (p p' : SignedPayload Call Extra Additional) : Prop :=
  ∃ bytes bytes', X.encodePayload p = some bytes ∧ X.encodePayload p' = some bytes' ∧ X.Collision bytes bytes'

theorem eq_or_collision {bytes bytes' : List UInt8} (h : X.toSign bytes = X.toSign bytes') :
    bytes = bytes' ∨ X.Collision bytes bytes' := by
  rw [or_iff_not_imp_left]
  intro hne
  refine ⟨hne, ?_⟩
  unfold toSign at h
  split_ifs at h with hlong hlong' hlong'
  · exact .inl ⟨hlong, hlong', Subtype.ext h⟩
  · exact .inr (.inl ⟨hlong, h.symm⟩)
  · exact .inr (.inr ⟨hlong', h⟩)
  · exact absurd h hne

/-- **Payloads of which the same is signed are the same, or collide.** -/
theorem eq_or_collide {p p' : SignedPayload Call Extra Additional} {bytes : List UInt8}
    (h : X.usingEncoded p = some bytes) (h' : X.usingEncoded p' = some bytes) : p = p' ∨ X.Collide p p' := by
  obtain ⟨encoded, hp, rfl⟩ := Option.map_eq_some_iff.mp h
  obtain ⟨encoded', hp', hsign⟩ := Option.map_eq_some_iff.mp h'
  rcases X.eq_or_collision hsign.symm with rfl | hcollision
  · left
    have hparts := Codec.encode_inj _ hp hp'
    rw [Prod.mk.injEq, Prod.mk.injEq] at hparts
    cases p
    cases p'
    obtain ⟨rfl, rfl, rfl⟩ := hparts
    rfl
  · exact .inr ⟨encoded, encoded', hp, hp', hcollision⟩

/-! ### An extrinsic that is checked -/

variable {X} {x : AppUncheckedExtrinsic Address Call Signature Extra} {c : CheckedExtrinsic AccountId Call Extra}

/-- One that is signed is checked with the payload of its own call and extra data. -/
theorem check_signed_eq_ok_iff {address : Address} {signature : Signature} {extra : Extra}
    (hsignature : x.signature = some (address, signature, extra)) : X.check x = .ok c ↔
      ∃ who additional bytes, X.lookup address = some who ∧ X.additionalSigned extra = .ok additional ∧
        X.usingEncoded ⟨x.function, extra, additional⟩ = some bytes ∧ X.verify signature bytes who = true ∧
        c = ⟨some (who, extra), x.function⟩ := by
  simp only [check, hsignature, newPayload, Except.bind_eq_ok, Run.okOr_eq_ok, Run.unwrap_eq_ok, Run.ensure_eq_ok,
    Except.pure_eq_ok, Except.ok.injEq]
  constructor
  · rintro ⟨who, hlookup, _, ⟨additional, hadditional, rfl⟩, bytes, hbytes, -, hverify, rfl⟩
    exact ⟨who, additional, bytes, hlookup, hadditional, hbytes, hverify, rfl⟩
  · rintro ⟨who, additional, bytes, hlookup, hadditional, hbytes, hverify, rfl⟩
    exact ⟨who, hlookup, _, ⟨additional, hadditional, rfl⟩, bytes, hbytes, (), hverify, rfl⟩

/-- Without the signature, the same comes out. -/
theorem uncheckedIntoChecked_of_check (h : X.check x = .ok c) : X.uncheckedIntoChecked x = .ok c := by
  cases hsignature : x.signature with
  | none =>
    rw [check, hsignature] at h
    rwa [uncheckedIntoChecked, hsignature]
  | some payload =>
    obtain ⟨address, signature, extra⟩ := payload
    obtain ⟨who, additional, -, hlookup, hadditional, -, -, rfl⟩ := (check_signed_eq_ok_iff hsignature).mp h
    simp only [uncheckedIntoChecked, hsignature, newPayload, hlookup, hadditional, Run.okOr_some, Except.ok_bind]
    rfl

variable (X) in
/-- The signature of an extrinsic is accepted for its payload, though its signer meant no payload of which the same
bytes are signed. -/
def Forgery (Meant : AccountId → SignedPayload Call Extra Additional → Prop)
    (x : AppUncheckedExtrinsic Address Call Signature Extra) : Prop :=
  ∃ address signature extra who additional bytes, x.signature = some (address, signature, extra) ∧
    X.lookup address = some who ∧ X.additionalSigned extra = .ok additional ∧
    X.usingEncoded ⟨x.function, extra, additional⟩ = some bytes ∧ X.verify signature bytes who = true ∧
    ∀ p, Meant who p → X.usingEncoded p ≠ some bytes

variable (X) in
/-- The signer of an extrinsic meant this call with this extra data, or another payload that collides with it. -/
def SignerMeant (Meant : AccountId → SignedPayload Call Extra Additional → Prop)
    (x : AppUncheckedExtrinsic Address Call Signature Extra) : Prop :=
  ∃ address signature extra who additional, x.signature = some (address, signature, extra) ∧
    X.lookup address = some who ∧ X.additionalSigned extra = .ok additional ∧
    (Meant who ⟨x.function, extra, additional⟩ ∨ ∃ p, Meant who p ∧ X.Collide p ⟨x.function, extra, additional⟩)

/-- **The signer of an extrinsic that is checked meant its call and its extra data**, or its signature is forged, or there
is a collision. -/
theorem forgery_or_signerMeant_of_check (Meant : AccountId → SignedPayload Call Extra Additional → Prop)
    (hcheck : X.check x = .ok c) (hsome : x.signature.isSome) : X.Forgery Meant x ∨ X.SignerMeant Meant x := by
  obtain ⟨⟨address, signature, extra⟩, hsignature⟩ := Option.isSome_iff_exists.mp hsome
  obtain ⟨who, additional, bytes, hlookup, hadditional, hbytes, hverify, -⟩ :=
    (check_signed_eq_ok_iff hsignature).mp hcheck
  by_cases hmeant : ∃ p, Meant who p ∧ X.usingEncoded p = some bytes
  · obtain ⟨p, hmeant, hp⟩ := hmeant
    refine .inr ⟨address, signature, extra, who, additional, hsignature, hlookup, hadditional, ?_⟩
    rcases X.eq_or_collide hp hbytes with rfl | hcollide
    · exact .inl hmeant
    · exact .inr ⟨p, hmeant, hcollide⟩
  · exact .inl ⟨address, signature, extra, who, additional, bytes, hsignature, hlookup, hadditional, hbytes, hverify,
      fun p hp hsame => hmeant ⟨p, hp, hsame⟩⟩

/-- An application other than the default is that of a signed extrinsic. -/
theorem isSome_signature_of_appId [GetAppId Extra] (h : x.appId ≠ ⟨0⟩) : x.signature.isSome := by
  cases hsignature : x.signature with
  | none =>
    rw [AppUncheckedExtrinsic.appId, hsignature] at h
    exact absurd rfl h
  | some payload => rfl

end Chain

end Signing

end AvailCore
