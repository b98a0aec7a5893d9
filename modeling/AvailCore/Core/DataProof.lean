import AvailCore.Core.Message
import AvailCore.Foundation.Chunks
import AvailCore.Foundation.Run
import AvailCore.Foundation.Scale

/-!
# Proofs of submitted data

`core/src/data_proof.rs`, and the bytes of the messages of `message.rs`. A `DataProof` is a
Merkle proof that a leaf is in one of the two trees of a block, that of submitted data or
that of bridged messages, with the roots of both. A bridge gets it as bytes, in a
`ProofResponse` with the message, and makes the Merkle proof of the one tree again.

## The model

`keccak_256` is any function from bytes to 32 bytes. A Merkle proof is that of
`binary-merkle-tree`, with counts that are a `usize`. The formats are built from those of
`Scale`, in the order of the fields.

## What is proved

A response has one encoding, and nothing else is read (`proofResponse_decode_iff_encode`).
A Merkle proof comes back from its data proof when its counts fit a `u32`, to which they
are cut, and its root is that of its tree. The bytes are of no other one, but for what is cut
or not looked at, and for bridged leaves whose hashes collide
(`asSubMerkleProof_decoded_iff`). Whoever has the root of the data has the roots of both
trees, unless their hashes collide (`TxDataRoots.new_inj`).
-/

namespace AvailCore

/-! ### Transactions -/

/-- `tx_uid` -/
def txUid (block txIndex : UInt32) : UInt64 :=
  let buf := (u32ToLeBytes block).reverse ++ (u32ToLeBytes txIndex).reverse
  UInt64.ofNat (leValue buf.reverse)

/-- `tx_uid_deconstruct` -/
def txUidDeconstruct (uid : UInt64) : UInt32 × UInt32 :=
  let id := (leBytes 8 uid.toNat).reverse
  (UInt32.ofNat (leValue (id.take 4).reverse), UInt32.ofNat (leValue (id.drop 4).reverse))

/-- The block is in the high half. -/
theorem toNat_txUid (block txIndex : UInt32) : (txUid block txIndex).toNat = block.toNat * 2 ^ 32 + txIndex.toNat := by
  have hblock := block.toNat_lt
  have htx := txIndex.toNat_lt
  rw [txUid, List.reverse_append, List.reverse_reverse, List.reverse_reverse, leValue_append, u32ToLeBytes,
    u32ToLeBytes, leValue_leBytes htx, leValue_leBytes hblock, length_leBytes, UInt64.toNat_ofNat']
  omega

/-- Identifiers are ordered by the block and then by the index. -/
theorem txUid_lt_iff {block block' txIndex txIndex' : UInt32} :
    txUid block txIndex < txUid block' txIndex' ↔ block < block' ∨ block = block' ∧ txIndex < txIndex' := by
  have htx := txIndex.toNat_lt
  have htx' := txIndex'.toNat_lt
  rw [UInt64.lt_iff_toNat_lt, toNat_txUid, toNat_txUid, UInt32.lt_iff_toNat_lt, UInt32.lt_iff_toNat_lt,
    ← UInt32.toNat_inj]
  omega

/-- An identifier has a block and an index, which it is made of. -/
theorem txUidDeconstruct_eq_iff {uid : UInt64} {block txIndex : UInt32} :
    txUidDeconstruct uid = (block, txIndex) ↔ txUid block txIndex = uid := by
  have hlength := length_leBytes 8 uid.toNat
  have hvalue : leValue (leBytes 8 uid.toNat) = uid.toNat := leValue_leBytes uid.toNat_lt
  rw [← List.take_append_drop 4 (leBytes 8 uid.toNat), leValue_append, List.length_take_of_le (by omega)] at hvalue
  have hlow := leValue_lt ((leBytes 8 uid.toNat).take 4)
  have hhigh := leValue_lt ((leBytes 8 uid.toNat).drop 4)
  rw [List.length_take_of_le (by omega)] at hlow
  rw [List.length_drop, hlength] at hhigh
  rw [txUidDeconstruct, List.take_reverse, List.drop_reverse, List.reverse_reverse, List.reverse_reverse, hlength,
    show 8 - 4 = 4 from rfl, Prod.mk.injEq, ← UInt32.toNat_inj, ← UInt32.toNat_inj, ← UInt64.toNat_inj, toNat_txUid,
    UInt32.toNat_ofNat',
    UInt32.toNat_ofNat']
  have hblock := block.toNat_lt
  have htx := txIndex.toNat_lt
  omega

/-! ### Proofs -/

/-- `TxDataRoots` -/
structure TxDataRoots where
  dataRoot : H256
  blobRoot : H256
  bridgeRoot : H256
  deriving DecidableEq

/-- `SubTrie` -/
inductive SubTrie where
  | dataSubmit
  | bridge
  deriving DecidableEq, Repr

/-- `binary_merkle_tree::MerkleProof<H256, Vec<u8>>` -/
structure MerkleProof where
  root : H256
  proof : List H256
  numberOfLeaves : ℕ
  leafIndex : ℕ
  leaf : List UInt8
  deriving DecidableEq

structure DataProof where
  roots : TxDataRoots
  /-- The hashes on the way from the leaf to the root. -/
  proof : List H256
  numberOfLeaves : UInt32
  leafIndex : UInt32
  leaf : H256
  deriving DecidableEq

structure ProofResponse where
  dataProof : DataProof
  message : Option AddressedMessage
  deriving DecidableEq

/-- The root of a tree. -/
def TxDataRoots.rootOf (roots : TxDataRoots) : SubTrie → H256
  | .dataSubmit => roots.blobRoot
  | .bridge => roots.bridgeRoot

section Proofs

variable {ε : Type} (keccak256 : List UInt8 → H256)

/-- `TxDataRoots::new` -/
def TxDataRoots.new (submitted bridged : H256) : TxDataRoots :=
  ⟨keccak256 (submitted.val ++ bridged.val), submitted, bridged⟩

/-- `H256::from_slice`: a panic on another length. -/
def h256FromSlice (bytes : List UInt8) : Run ε H256 :=
  if h : bytes.length = 32 then .ok ⟨bytes, h⟩ else .error .panic

/-- `DataProof::new` -/
def DataProof.new (subTrie : SubTrie) (roots : TxDataRoots) (mProof : MerkleProof) : Run ε DataProof := do
  let leaf ← match subTrie with
    | .dataSubmit => h256FromSlice mProof.leaf
    | .bridge => pure (keccak256 mProof.leaf)
  return ⟨roots, mProof.proof, UInt32.ofNat mProof.numberOfLeaves, UInt32.ofNat mProof.leafIndex, leaf⟩

/-- `DataProof::as_sub_merkle_proof` -/
def DataProof.asSubMerkleProof (p : DataProof) (subTrie : SubTrie) (leaf : List UInt8) : MerkleProof :=
  ⟨p.roots.rootOf subTrie, p.proof, p.numberOfLeaves.toNat, p.leafIndex.toNat, leaf⟩

end Proofs

/-! ### Formats -/

/-- The bytes of `BoundedData`: a vector, refused when it is too long. -/
def scaleBoundedData : Codec BoundedData := byte.vec.restrict fun bytes => bytes.length ≤ boundedDataMaxLength

/-- The bytes of a `Message`. -/
def scaleMessage : Codec Message :=
  (Codec.either 0 1 (by decide) scaleBoundedData ((Codec.array 32).prod compactU128)).iso
    (fun x => x.elim .arbitraryMessage fun p => .fungibleToken p.1 p.2)
    (fun m => match m with
      | .arbitraryMessage data => .inl data
      | .fungibleToken assetId amount => .inr (assetId, amount))
    fun m => by cases m <;> rfl

/-- The bytes of an `AddressedMessage`. -/
def scaleAddressedMessage : Codec AddressedMessage :=
  (scaleMessage.prod <| (Codec.array 32).prod <| (Codec.array 32).prod <| compact.prod <| compact.prod compactU64).iso
    (fun p => ⟨p.1, p.2.1, p.2.2.1, p.2.2.2.1, p.2.2.2.2.1, p.2.2.2.2.2⟩)
    (fun m => (m.message, m.from_, m.to_, m.originDomain, m.destinationDomain, m.id)) fun _ => rfl

/-- The bytes of `TxDataRoots`. -/
def scaleTxDataRoots : Codec TxDataRoots :=
  ((Codec.array 32).prod <| (Codec.array 32).prod (Codec.array 32)).iso (fun p => ⟨p.1, p.2.1, p.2.2⟩)
    (fun r => (r.dataRoot, r.blobRoot, r.bridgeRoot)) fun _ => rfl

/-- The bytes of a `DataProof`. -/
def scaleDataProof : Codec DataProof :=
  (scaleTxDataRoots.prod <| (Codec.array 32).vec.prod <| compact.prod <| compact.prod (Codec.array 32)).iso
    (fun p => ⟨p.1, p.2.1, p.2.2.1, p.2.2.2.1, p.2.2.2.2⟩)
    (fun p => (p.roots, p.proof, p.numberOfLeaves, p.leafIndex, p.leaf)) fun _ => rfl

/-- The bytes of a `ProofResponse`. -/
def scaleProofResponse : Codec ProofResponse :=
  (scaleDataProof.prod scaleAddressedMessage.option).iso (fun p => ⟨p.1, p.2⟩) (fun r => (r.dataProof, r.message))
    fun _ => rfl

theorem h256_canonical : (Codec.array 32).Canonical := Codec.array_canonical 32

theorem scaleMessage_canonical : scaleMessage.Canonical := by
  have hdata : scaleBoundedData.Canonical := Codec.Canonical.restrict (Codec.Canonical.vec byte_canonical) _
  have hamount : compactU128.Canonical := wideCompact_canonical 16 (by decide) (by decide)
  have htoken : ((Codec.array 32).prod compactU128).Canonical := Codec.Canonical.prod h256_canonical hamount
  have hzero : (0 : UInt8) ≠ 1 := by decide
  apply Codec.Canonical.iso
  · exact hdata.either htoken hzero
  · rintro (data | ⟨assetId, amount⟩)
    · rfl
    · rfl

theorem scaleAddressedMessage_canonical : scaleAddressedMessage.Canonical := by
  have hmessage : scaleMessage.Canonical := scaleMessage_canonical
  have harray : (Codec.array 32).Canonical := h256_canonical
  have hdomain : compact.Canonical := compact_canonical
  have hid : compactU64.Canonical := compactU64_canonical
  apply Codec.Canonical.iso
  · exact hmessage.prod (harray.prod (harray.prod (hdomain.prod (hdomain.prod hid))))
  · exact fun _ => rfl

theorem scaleDataProof_canonical : scaleDataProof.Canonical := by
  have harray : (Codec.array 32).Canonical := h256_canonical
  have hcount : compact.Canonical := compact_canonical
  have hroots : scaleTxDataRoots.Canonical := Codec.Canonical.iso (harray.prod (harray.prod harray)) fun _ => rfl
  have hnodes : (Codec.array 32).vec.Canonical := harray.vec
  apply Codec.Canonical.iso
  · exact hroots.prod (hnodes.prod (hcount.prod (hcount.prod harray)))
  · exact fun _ => rfl

/-- **A response has one encoding, and nothing else is read**: not a number in a longer form, a message of another
kind, or data past the bound. -/
theorem proofResponse_decode_iff_encode {r : ProofResponse} {bs rest : List UInt8} :
    scaleProofResponse.decode bs = some (r, rest) ↔ ∃ xs, scaleProofResponse.encode r = some xs ∧ bs = xs ++ rest := by
  have hproof : scaleDataProof.Canonical := scaleDataProof_canonical
  have hmessage : scaleAddressedMessage.Canonical := scaleAddressedMessage_canonical
  have hresponse : scaleProofResponse.Canonical := Codec.Canonical.iso (hproof.prod hmessage.option) fun _ => rfl
  exact hresponse.decode_eq_some_iff

/-! ### From a proof to the other side -/

section Bridged

variable {ε : Type} (keccak256 : List UInt8 → H256)

theorem dataProof_new_eq_ok {subTrie : SubTrie} {roots : TxDataRoots} {mProof : MerkleProof} {p : DataProof}
    (h : (DataProof.new keccak256 subTrie roots mProof : Run ε DataProof) = .ok p) :
    ∃ leaf, p = ⟨roots, mProof.proof, UInt32.ofNat mProof.numberOfLeaves, UInt32.ofNat mProof.leafIndex, leaf⟩ ∧
      (subTrie = .dataSubmit → leaf.val = mProof.leaf) ∧ (subTrie = .bridge → leaf = keccak256 mProof.leaf) := by
  cases subTrie with
  | dataSubmit =>
    simp only [DataProof.new, h256FromSlice, Except.bind_eq_ok, Except.pure_eq_ok, Except.ok.injEq] at h
    obtain ⟨leaf, hleaf, rfl⟩ := h
    split_ifs at hleaf
    cases hleaf
    exact ⟨_, rfl, fun _ => rfl, nofun⟩
  | bridge =>
    simp only [DataProof.new, Except.bind_eq_ok, Except.pure_eq_ok, Except.ok.injEq] at h
    obtain ⟨_, rfl, rfl⟩ := h
    exact ⟨_, rfl, nofun, fun _ => rfl⟩

/-- Different bytes with one hash. -/
def HashCollision (bytes bytes' : List UInt8) : Prop := bytes ≠ bytes' ∧ keccak256 bytes = keccak256 bytes'

theorem hash_eq_iff {bytes bytes' : List UInt8} :
    keccak256 bytes = keccak256 bytes' ↔ bytes = bytes' ∨ HashCollision keccak256 bytes bytes' := by
  constructor
  · intro h
    exact (em (bytes = bytes')).imp_right fun hne => ⟨hne, h⟩
  · rintro (rfl | hcollision)
    · rfl
    · exact hcollision.2

/-- **The root of the data is of two roots**, or there is a collision. -/
theorem TxDataRoots.new_inj {submitted bridged submitted' bridged' : H256}
    (h : (TxDataRoots.new keccak256 submitted bridged).dataRoot =
      (TxDataRoots.new keccak256 submitted' bridged').dataRoot) :
    submitted = submitted' ∧ bridged = bridged' ∨
      HashCollision keccak256 (submitted.val ++ bridged.val) (submitted'.val ++ bridged'.val) := by
  refine ((hash_eq_iff keccak256).mp h).imp_left fun hbytes => ?_
  obtain ⟨hsubmitted, hbridged⟩ := List.append_inj hbytes (submitted.property.trans submitted'.property.symm)
  exact ⟨Subtype.ext hsubmitted, Subtype.ext hbridged⟩

/-- Merkle proofs that are not told apart: their counts are cut to a `u32`, and a bridged leaf is hashed. -/
structure PackedAlike (subTrie : SubTrie) (mProof mProof' : MerkleProof) : Prop where
  proof : mProof.proof = mProof'.proof
  numberOfLeaves : mProof.numberOfLeaves % 2 ^ 32 = mProof'.numberOfLeaves % 2 ^ 32
  leafIndex : mProof.leafIndex % 2 ^ 32 = mProof'.leafIndex % 2 ^ 32
  leaf : mProof.leaf = mProof'.leaf ∨ subTrie = .bridge ∧ HashCollision keccak256 mProof.leaf mProof'.leaf

theorem dataProof_new_eq_iff {subTrie : SubTrie} {roots roots' : TxDataRoots} {mProof mProof' : MerkleProof}
    {p p' : DataProof} (h : (DataProof.new keccak256 subTrie roots mProof : Run ε DataProof) = .ok p)
    (h' : (DataProof.new keccak256 subTrie roots' mProof' : Run ε DataProof) = .ok p') :
    p = p' ↔ roots = roots' ∧ PackedAlike keccak256 subTrie mProof mProof' := by
  have hcut : ∀ n n' : ℕ, UInt32.ofNat n = UInt32.ofNat n' ↔ n % 2 ^ 32 = n' % 2 ^ 32 := by
    intro n n'
    rw [← UInt32.toNat_inj, UInt32.toNat_ofNat', UInt32.toNat_ofNat']
  obtain ⟨leaf, rfl, hsubmit, hbridge⟩ := dataProof_new_eq_ok keccak256 h
  obtain ⟨leaf', rfl, hsubmit', hbridge'⟩ := dataProof_new_eq_ok keccak256 h'
  have hleaf : leaf = leaf' ↔
      mProof.leaf = mProof'.leaf ∨ subTrie = .bridge ∧ HashCollision keccak256 mProof.leaf mProof'.leaf := by
    cases subTrie with
    | dataSubmit =>
      rw [← hsubmit rfl, ← hsubmit' rfl]
      exact ⟨fun heq => .inl (congrArg Subtype.val heq), fun heq => Subtype.ext (heq.resolve_right nofun)⟩
    | bridge =>
      rw [hbridge rfl, hbridge' rfl, hash_eq_iff]
      simp only [true_and]
  rw [DataProof.mk.injEq, hcut, hcut, hleaf]
  constructor
  · rintro ⟨hroots, hproof, hcount, hindex, hleaf⟩
    exact ⟨hroots, hproof, hcount, hindex, hleaf⟩
  · rintro ⟨hroots, hproof, hcount, hindex, hleaf⟩
    exact ⟨hroots, hproof, hcount, hindex, hleaf⟩

/-- **A Merkle proof comes back from its bytes** exactly when its counts fit a `u32` and its root is that of its
tree: the counts are cut to a `u32`, and the root is not looked at. The bytes are of no other one, but for that and for
hashes that collide. -/
theorem asSubMerkleProof_decoded_iff {subTrie : SubTrie} {roots : TxDataRoots} {mProof : MerkleProof} {p : DataProof}
    (h : (DataProof.new keccak256 subTrie roots mProof : Run ε DataProof) = .ok p) {message : Option AddressedMessage}
    {bytes : List UInt8} (hbytes : scaleProofResponse.encode ⟨p, message⟩ = some bytes) (rest : List UInt8) :
    (∃ r, scaleProofResponse.decode (bytes ++ rest) = some (r, rest) ∧ r.message = message ∧
      (subTrie = .dataSubmit → r.dataProof.leaf.val = mProof.leaf) ∧
      (subTrie = .bridge → r.dataProof.leaf = keccak256 mProof.leaf) ∧
      (r.dataProof.asSubMerkleProof subTrie mProof.leaf = mProof ↔
        mProof.root = roots.rootOf subTrie ∧ mProof.numberOfLeaves < 2 ^ 32 ∧ mProof.leafIndex < 2 ^ 32)) ∧
    ∀ (roots' : TxDataRoots) (mProof' : MerkleProof) (p' : DataProof) (message' : Option AddressedMessage),
      (DataProof.new keccak256 subTrie roots' mProof' : Run ε DataProof) = .ok p' →
      (scaleProofResponse.encode ⟨p', message'⟩ = some bytes ↔
        message = message' ∧ roots = roots' ∧ PackedAlike keccak256 subTrie mProof mProof') := by
  constructor
  · obtain ⟨leaf, rfl, hsubmit, hbridge⟩ := dataProof_new_eq_ok keccak256 h
    refine ⟨_, scaleProofResponse.decode_encode hbytes rest, rfl, hsubmit, hbridge, ?_⟩
    have hcut : ∀ n : ℕ, (UInt32.ofNat n).toNat = n ↔ n < 2 ^ 32 := by
      intro n
      rw [UInt32.toNat_ofNat']
      exact ⟨fun h => h ▸ Nat.mod_lt _ (Nat.two_pow_pos 32), Nat.mod_eq_of_lt⟩
    obtain ⟨root, proof, numberOfLeaves, leafIndex, _⟩ := mProof
    simp only [DataProof.asSubMerkleProof, MerkleProof.mk.injEq, hcut, true_and, and_true]
    rw [eq_comm]
  · intro roots' mProof' p' message' h'
    rw [← dataProof_new_eq_iff keccak256 h h', and_comm, ← ProofResponse.mk.injEq]
    constructor
    · exact fun hbytes' => scaleProofResponse.encode_inj hbytes hbytes'
    · rintro heq
      rw [← heq, hbytes]

end Bridged

/-- A hash that pads with zeros. -/
def zeroPaddedHash (bytes : List UInt8) : H256 := ⟨Chunks.resizeTo 0 32 bytes, Chunks.length_resizeTo ..⟩

/-- Roots of a tree of submitted data and of a tree of bridged messages. -/
def twoRoots : TxDataRoots :=
  ⟨List.Vector.replicate 32 1, List.Vector.replicate 32 3, List.Vector.replicate 32 5⟩

/-- 1000 of a token, sent from one address to another. -/
def sentToken : AddressedMessage :=
  ⟨.fungibleToken (List.Vector.replicate 32 4) 1000, List.Vector.replicate 32 1, List.Vector.replicate 32 2, 1, 2, 3⟩

/-- A leaf of submitted data, which is not hashed, and a bridged one, which is, with its message. -/
theorem asSubMerkleProof_decoded_iff_two : ∃ bytes r bytes' r',
    scaleProofResponse.decode (bytes ++ [7]) = some (r, [7]) ∧
      r.dataProof.asSubMerkleProof .dataSubmit (List.replicate 32 9) =
        ⟨List.Vector.replicate 32 3, [], 1, 0, List.replicate 32 9⟩ ∧
    scaleProofResponse.decode (bytes' ++ [7]) = some (r', [7]) ∧
      r'.dataProof.asSubMerkleProof .bridge [1, 2] =
        ⟨List.Vector.replicate 32 5, [List.Vector.replicate 32 6], 2, 1, [1, 2]⟩ := by
  have hsubmit : (DataProof.new zeroPaddedHash .dataSubmit twoRoots
      ⟨List.Vector.replicate 32 3, [], 1, 0, List.replicate 32 9⟩ : Run Unit DataProof) =
        .ok ⟨twoRoots, [], 1, 0, List.Vector.replicate 32 9⟩ := rfl
  have hbridge : (DataProof.new zeroPaddedHash .bridge twoRoots
      ⟨List.Vector.replicate 32 5, [List.Vector.replicate 32 6], 2, 1, [1, 2]⟩ : Run Unit DataProof) =
        .ok ⟨twoRoots, [List.Vector.replicate 32 6], 2, 1, zeroPaddedHash [1, 2]⟩ := rfl
  obtain ⟨bytes, hbytes⟩ := Option.isSome_iff_exists.mp
    (show (scaleProofResponse.encode ⟨⟨twoRoots, [], 1, 0, List.Vector.replicate 32 9⟩, none⟩).isSome from rfl)
  obtain ⟨bytes', hbytes'⟩ := Option.isSome_iff_exists.mp
    (show (scaleProofResponse.encode
      ⟨⟨twoRoots, [List.Vector.replicate 32 6], 2, 1, zeroPaddedHash [1, 2]⟩, some sentToken⟩).isSome from rfl)
  obtain ⟨⟨r, hread, -, -, -, hback⟩, -⟩ := asSubMerkleProof_decoded_iff zeroPaddedHash hsubmit hbytes [7]
  obtain ⟨⟨r', hread', -, -, -, hback'⟩, -⟩ := asSubMerkleProof_decoded_iff zeroPaddedHash hbridge hbytes' [7]
  exact ⟨bytes, r, bytes', r', hread, hback.mpr ⟨rfl, by decide, by decide⟩, hread',
    hback'.mpr ⟨rfl, by decide, by decide⟩⟩

end AvailCore
