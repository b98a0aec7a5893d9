import AvailCore.Foundation.SolidityAbi
import Mathlib.Data.Vector.Basic

/-!
# Messages to other chains

`core/src/data_proof/message.rs`. A message that is bridged to another chain carries data,
or an amount of an asset. Its hash is that of its encoding by the Solidity ABI, one tuple
of a selector of its kind, the addresses, the domains, the data and the id; the data of
an asset's message is an ABI encoding again.

## The model

`ethabi_decode::encode` is any function that is the encoding of `SolidityAbi` on values of
their types whose encoding has fewer than `2³²` bytes (`EncodesAbi`). `U256` is a bit
vector of 256 bits.

## What is proved

Different messages have different encodings (`abiEncode_injective`).
-/

namespace AvailCore

open SolidityAbi

/-- `BOUNDED_DATA_MAX_LENGTH` -/
def boundedDataMaxLength : ℕ := 102400

/-- `BoundedData` -/
abbrev BoundedData := { bytes : List UInt8 // bytes.length ≤ boundedDataMaxLength }

abbrev H256 := List.Vector UInt8 32

/-- `U256::from` -/
def u256From (n : ℕ) : BitVec 256 := BitVec.ofNat 256 n

inductive Message where
  | arbitraryMessage (data : BoundedData)
  | fungibleToken (assetId : H256) (amount : BitVec 128)
  deriving DecidableEq

structure AddressedMessage where
  message : Message
  from_ : H256
  to_ : H256
  originDomain : UInt32
  destinationDomain : UInt32
  id : UInt64
  deriving DecidableEq

/-- `Message::selector_abi_encode` -/
def Message.selectorAbiEncode : Message → List UInt8
  | arbitraryMessage _ => [0x01]
  | fungibleToken _ _ => [0x02]

section Encode

variable (encode : List Token → List UInt8)

namespace AddressedMessage

/-- The tokens of the data of a message about an asset. -/
def assetTokens (assetId : H256) (amount : BitVec 128) : List Token :=
  [.fixedBytes assetId.toList, .uint (u256From amount.toNat)]

/-- `AddressedMessage::abi_data` -/
def abiData (m : AddressedMessage) : List UInt8 :=
  match m.message with
  | .arbitraryMessage data => data.val
  | .fungibleToken assetId amount => encode (assetTokens assetId amount)

/-- The tuple that is encoded. -/
def token (m : AddressedMessage) (data : List UInt8) : Token :=
  .tuple [.fixedBytes m.message.selectorAbiEncode, .fixedBytes m.from_.toList, .fixedBytes m.to_.toList,
    .uint (u256From m.originDomain.toNat), .uint (u256From m.destinationDomain.toNat), .bytes data,
    .uint (u256From m.id.toNat)]

/-- `AddressedMessage::abi_encode` -/
def abiEncode (m : AddressedMessage) : List UInt8 := encode [m.token (m.abiData encode)]

end AddressedMessage

/-- `encode` is the ABI's, where the lengths of what it writes are counted by a `u32`. -/
def EncodesAbi : Prop :=
  ∀ ts, AllValid ts → (SolidityAbi.encode ts).length < 2 ^ 32 → encode ts = SolidityAbi.encode ts

end Encode

theorem u256From_inj {m n k : ℕ} (hk : k ≤ 256) (hm : m < 2 ^ k) (hn : n < 2 ^ k) (h : u256From m = u256From n) :
    m = n := by
  have hpow : 2 ^ k ≤ 2 ^ 256 := Nat.pow_le_pow_right (by decide) hk
  exact ofNat_inj (hm.trans_le hpow) (hn.trans_le hpow) h

theorem Message.length_selectorAbiEncode (m : Message) : m.selectorAbiEncode.length = 1 := by
  cases m with
  | arbitraryMessage _ => rfl
  | fungibleToken _ _ => rfl

namespace AddressedMessage

/-! ### The tokens -/

theorem tys_assetTokens (assetId : H256) (amount : BitVec 128) :
    tys (assetTokens assetId amount) = [.fixedBytes 32, .uint] := by
  simp only [assetTokens, tys, Token.ty, List.Vector.toList_length]

theorem valid_assetTokens (assetId : H256) (amount : BitVec 128) : AllValid (assetTokens assetId amount) := by
  simp only [assetTokens, AllValid, Token.Valid, List.Vector.toList_length]
  decide

/-- Every message is a tuple of one type. -/
theorem ty_token (m : AddressedMessage) (data : List UInt8) : (m.token data).ty =
    .tuple [.fixedBytes 1, .fixedBytes 32, .fixedBytes 32, .uint, .uint, .bytes, .uint] := by
  simp only [token, Token.ty, tys, Message.length_selectorAbiEncode, List.Vector.toList_length]

theorem valid_token (m : AddressedMessage) {data : List UInt8} (h : data.length < 2 ^ 256) :
    AllValid [m.token data] := by
  simp only [AllValid, token, Token.Valid, Message.length_selectorAbiEncode, List.Vector.toList_length, h, and_true]
  decide

theorem length_encode_assetTokens (assetId : H256) (amount : BitVec 128) :
    (SolidityAbi.encode (assetTokens assetId amount)).length = 64 := by
  simp [SolidityAbi.encode, assetTokens, parts, Token.part, layout, heads, tails, length_padRight]

theorem length_encode_token (m : AddressedMessage) (data : List UInt8) :
    (SolidityAbi.encode [m.token data]).length ≤ data.length + 320 := by
  simp only [SolidityAbi.encode, layout, parts, token, Token.part, List.any_cons, List.any_nil, Bool.or_self,
    Bool.or_false, Bool.or_true, heads, Bool.false_eq_true, if_false, if_true, List.append_nil, tails,
    List.nil_append, List.append_assoc, List.length_append, length_word, length_padRight,
    Message.length_selectorAbiEncode, List.Vector.toList_length]
  omega

/-! ### The encoding -/

section Encode

variable {encode : List Token → List UInt8} (hencode : EncodesAbi encode)

include hencode

theorem encode_assetTokens (assetId : H256) (amount : BitVec 128) :
    encode (assetTokens assetId amount) = SolidityAbi.encode (assetTokens assetId amount) := by
  have hlen := length_encode_assetTokens assetId amount
  exact hencode _ (valid_assetTokens assetId amount) (by omega)

theorem length_abiData_le (m : AddressedMessage) : (m.abiData encode).length ≤ boundedDataMaxLength := by
  rw [abiData]
  cases m.message with
  | arbitraryMessage data => exact data.property
  | fungibleToken assetId amount =>
    dsimp only
    rw [encode_assetTokens hencode, length_encode_assetTokens]
    decide

theorem abiEncode_eq (m : AddressedMessage) : m.abiEncode encode = SolidityAbi.encode [m.token (m.abiData encode)] := by
  have hdata := length_abiData_le hencode m
  have hlen := length_encode_token m (m.abiData encode)
  have hbound : boundedDataMaxLength + 320 < 2 ^ 32 := by decide
  exact hencode _ (valid_token m (by omega)) (by omega)

/-- The selector separates the kinds, and the data the messages of a kind. -/
theorem message_inj {m n : AddressedMessage} (hselector : m.message.selectorAbiEncode = n.message.selectorAbiEncode)
    (hdata : m.abiData encode = n.abiData encode) : m.message = n.message := by
  rw [abiData, abiData] at hdata
  cases hm : m.message with
  | arbitraryMessage data =>
    cases hn : n.message with
    | arbitraryMessage data' =>
      rw [hm, hn] at hdata
      rw [Subtype.ext hdata]
    | fungibleToken _ _ =>
      rw [hm, hn] at hselector
      cases hselector
  | fungibleToken assetId amount =>
    cases hn : n.message with
    | arbitraryMessage _ =>
      rw [hm, hn] at hselector
      cases hselector
    | fungibleToken assetId' amount' =>
      rw [hm, hn] at hdata
      dsimp only at hdata
      rw [encode_assetTokens hencode, encode_assetTokens hencode] at hdata
      have hty : tys (assetTokens assetId amount) = tys (assetTokens assetId' amount') := by
        rw [tys_assetTokens, tys_assetTokens]
      have htokens := encode_inj hty (valid_assetTokens ..) (valid_assetTokens ..) hdata
      simp only [assetTokens, List.cons.injEq, Token.fixedBytes.injEq, Token.uint.injEq, and_true] at htokens
      have hamount := u256From_inj (by decide) amount.isLt amount'.isLt htokens.2
      rw [List.Vector.eq _ _ htokens.1, BitVec.eq_of_toNat_eq hamount]

/-- **Different messages have different encodings**, whatever data they carry. -/
theorem abiEncode_injective : Function.Injective (abiEncode encode) := by
  intro m n h
  rw [abiEncode_eq hencode, abiEncode_eq hencode] at h
  have hm := length_abiData_le hencode m
  have hn := length_abiData_le hencode n
  have hbound : boundedDataMaxLength < 2 ^ 256 := by decide
  have hty : tys [m.token (m.abiData encode)] = tys [n.token (n.abiData encode)] := by
    simp only [tys, ty_token]
  have htokens := encode_inj hty (valid_token m (by omega)) (valid_token n (by omega)) h
  simp only [token, List.cons.injEq, Token.tuple.injEq, Token.fixedBytes.injEq, Token.uint.injEq, Token.bytes.injEq,
    and_true] at htokens
  obtain ⟨hselector, hfrom, hto, horigin, hdestination, hdata, hid⟩ := htokens
  have hmessage := message_inj hencode hselector hdata
  have horigin' := u256From_inj (by decide) m.originDomain.toNat_lt n.originDomain.toNat_lt horigin
  have hdestination' := u256From_inj (by decide) m.destinationDomain.toNat_lt n.destinationDomain.toNat_lt hdestination
  have hid' := u256From_inj (by decide) m.id.toNat_lt n.id.toNat_lt hid
  obtain ⟨message, from_, to_, originDomain, destinationDomain, id⟩ := m
  obtain ⟨message', from_', to_', originDomain', destinationDomain', id'⟩ := n
  cases hmessage
  cases List.Vector.eq _ _ hfrom
  cases List.Vector.eq _ _ hto
  cases UInt32.toNat_inj.mp horigin'
  cases UInt32.toNat_inj.mp hdestination'
  cases UInt64.toNat_inj.mp hid'
  rfl

end Encode

theorem abiEncode_injective_abi : Function.Injective (abiEncode SolidityAbi.encode) :=
  abiEncode_injective fun _ _ _ => rfl

end AddressedMessage

end AvailCore
