import AvailCore.Foundation.Fourier
import AvailCore.Foundation.Word
import AvailCore.Recovery.Scalar
import Mathlib.Data.Vector.Basic

/-!
# What the code takes from arkworks

The scalars, their bytes and their evaluation domains are arkworks', which is not part
of the repository. `Ark` is what the code calls of it, with what its documentation says
of these calls: a domain has the next power of two of the requested size, its
transforms evaluate and interpolate on the powers of its generator, the generator of a
smaller domain is a power of that of a larger one, and a scalar's 32 bytes,
little-endian, are those of a number below the modulus. Every result about the code is
for every `Ark`.

`bls12381` is one, that computes: the sums that define the transforms, on the roots of
unity of the field.
-/

namespace AvailCore

open Chunks AvailCore.Fourier

/-- `SCALAR_SIZE`, `CHUNK_SIZE` -/
abbrev chunkSize : ℕ := 32

/-- `DATA_CHUNK_SIZE` -/
abbrev dataChunkSize : ℕ := 31

theorem chunkSize_pos : 0 < chunkSize := Nat.succ_pos 31

theorem dataChunkSize_pos : 0 < dataChunkSize := Nat.succ_pos 30

theorem dataChunkSize_le : dataChunkSize ≤ chunkSize := Nat.le_succ 31

/-- `[u8; CHUNK_SIZE]` -/
abbrev Chunk := List.Vector UInt8 chunkSize

/-- `GeneralEvaluationDomain<Fr>` -/
structure EvaluationDomain where
  /-- The number of its points. -/
  size : ℕ
  /-- Whose powers they are. -/
  groupGen : ArkScalar
  deriving DecidableEq

/-- `domain.elements()` -/
def EvaluationDomain.elements (d : EvaluationDomain) : List ArkScalar :=
  (List.range d.size).map fun i => d.groupGen ^ i

@[simp] theorem EvaluationDomain.length_elements (d : EvaluationDomain) : d.elements.length = d.size := by
  simp [EvaluationDomain.elements]

/-- The calls to arkworks, and what they are documented to do. -/
structure Ark where
  /-- `EvaluationDomain::new(n)` -/
  newDomain : ℕ → Option EvaluationDomain
  /-- `domain.fft(coeffs)` -/
  fft : EvaluationDomain → List ArkScalar → List ArkScalar
  /-- `domain.ifft(evals)` -/
  ifft : EvaluationDomain → List ArkScalar → List ArkScalar
  /-- `scalar.to_bytes()` -/
  toBytes : ArkScalar → Option Chunk
  /-- `Fr::from_bytes(bytes)` -/
  fromBytes : Chunk → Option ArkScalar
  size_newDomain : ∀ {n d}, newDomain n = some d → d.size = nextPowerOfTwo n
  isTransform : ∀ {n d}, newDomain n = some d → IsTransform d.groupGen d.size (fft d) (ifft d)
  /-- The generator of a smaller domain is a power of that of a larger one. -/
  groupGen_pow : ∀ {m n d e}, newDomain m = some d → newDomain n = some e → d.size ∣ e.size →
    e.groupGen ^ (e.size / d.size) = d.groupGen
  toBytes_isSome : ∀ s, (toBytes s).isSome
  fromBytes_toBytes : ∀ {s b}, toBytes s = some b → fromBytes b = some s
  toBytes_fromBytes : ∀ {s b}, fromBytes b = some s → toBytes s = some b
  /-- Bytes that end in 0 are of a number below the modulus. -/
  fromBytes_isSome : ∀ {b : Chunk}, b.val.getLast? = some 0 → (fromBytes b).isSome

namespace Ark

variable (A : Ark)

/-- Bytes that are read are those of one scalar. -/
theorem fromBytes_inj {b b' : Chunk} {s : ArkScalar} (h : A.fromBytes b = some s) (h' : A.fromBytes b' = some s) :
    b = b' :=
  Option.some.inj ((A.toBytes_fromBytes h).symm.trans (A.toBytes_fromBytes h'))

/-- A domain of a power of two has no more points. -/
theorem size_newDomain_eq {n : ℕ} {d : EvaluationDomain} (h : A.newDomain n = some d) (hn : isPowerOfTwo n = true) :
    d.size = n :=
  (A.size_newDomain h).trans (beq_iff_eq.mp hn).symm

/-- The transforms are the sums that define them. -/
theorem eq_dft {n : ℕ} {d : EvaluationDomain} (h : A.newDomain n = some d) :
    A.fft d = dft d.groupGen d.size ∧ A.ifft d = idft d.groupGen d.size := by
  apply (A.isTransform h).eq_dft
  rw [A.size_newDomain h]
  exact nextPowerOfTwo_pos n

/-- What is interpolated has the values it was interpolated from. -/
theorem eval_ifft {n : ℕ} {d : EvaluationDomain} (h : A.newDomain n = some d) {es : List ArkScalar}
    (hlen : es.length = d.size) {i : ℕ} {e : ArkScalar} (he : es[i]? = some e) :
    (toPoly (A.ifft d es)).eval (d.groupGen ^ i) = e := by
  have hi : i < d.size := hlen ▸ (List.getElem?_eq_some_iff.mp he).1
  rw [← (A.isTransform h).evals_ifft hlen, getElem?_evals _ _ _ hi] at he
  exact Option.some.inj he

/-- Values that do not fill the domain are interpolated as well. -/
theorem eval_ifft_of_le {n : ℕ} {d : EvaluationDomain} (h : A.newDomain n = some d) {es : List ArkScalar}
    (hlen : es.length ≤ d.size) {i : ℕ} {e : ArkScalar} (he : es[i]? = some e) :
    (toPoly (A.ifft d es)).eval (d.groupGen ^ i) = e := by
  have hresize : A.ifft d es = A.ifft d (resizeTo 0 d.size es) := by
    rw [(A.isTransform h).ifft_eq_iff, resizeTo_of_length (length_resizeTo 0 d.size es)]
  have hi : i < es.length := (List.getElem?_eq_some_iff.mp he).1
  rw [hresize]
  apply A.eval_ifft h (length_resizeTo 0 d.size es)
  rw [resizeTo_of_le hlen, List.getElem?_append_left hi, he]

/-- On all the points of the domain. -/
theorem map_eval_elements {n : ℕ} {d : EvaluationDomain} (h : A.newDomain n = some d) {es : List ArkScalar}
    (hlen : es.length = d.size) : (d.elements.map fun x => (toPoly (A.ifft d es)).eval x) = es := by
  rw [EvaluationDomain.elements, List.map_map]
  exact (A.isTransform h).evals_ifft hlen

section Extend

variable {m n : ℕ} {short long : EvaluationDomain} (hshort : A.newDomain m = some short)
  (hlong : A.newDomain n = some long)
include hshort hlong

/-- What is interpolated on a smaller domain is evaluated on a larger one. -/
theorem fft_ifft_eq_evals (hle : short.size ≤ long.size) (es : List ArkScalar) :
    A.fft long (A.ifft short es) = evals long.groupGen long.size (toPoly (A.ifft short es)) := by
  apply (A.isTransform hlong).fft_eq_evals
  exact ((A.isTransform hshort).degree_ifft_lt es).trans_le (by exact_mod_cast hle)

/-- The generator of a domain `f` times as large, to the power of `f`. -/
theorem groupGen_pow_eq {f : ℕ} (hsize : long.size = short.size * f) : long.groupGen ^ f = short.groupGen := by
  have hpos : 0 < short.size := A.size_newDomain hshort ▸ nextPowerOfTwo_pos m
  have hpow := A.groupGen_pow hshort hlong (hsize ▸ dvd_mul_right _ _)
  rwa [hsize, Nat.mul_div_cancel_left _ hpos] at hpow

/-- **Extending is systematic**: every `f`-th value is one of those that were interpolated. -/
theorem getElem?_fft_ifft {f : ℕ} (hsize : long.size = short.size * f) {es : List ArkScalar}
    (hlen : es.length = short.size) {i : ℕ} {e : ArkScalar} (he : es[i]? = some e) :
    (A.fft long (A.ifft short es))[i * f]? = some e := by
  have hi : i < short.size := hlen ▸ (List.getElem?_eq_some_iff.mp he).1
  have hpos : 0 < f := by
    apply Nat.pos_of_ne_zero
    rintro rfl
    exact absurd (A.size_newDomain hlong ▸ nextPowerOfTwo_pos n) (by rw [hsize, Nat.mul_zero]; exact lt_irrefl 0)
  have hle : short.size ≤ long.size := hsize ▸ Nat.le_mul_of_pos_right _ hpos
  have hlt : i * f < long.size := hsize ▸ Nat.mul_lt_mul_of_pos_right hi hpos
  rw [A.fft_ifft_eq_evals hshort hlong hle, getElem?_evals _ _ _ hlt, Nat.mul_comm, pow_mul,
    A.groupGen_pow_eq hshort hlong hsize, A.eval_ifft hshort hlen he]

end Extend

end Ark

/-! ### One that computes -/

/-- The number of bytes that end in 0 has one byte less. -/
theorem leValue_lt_of_last {b : Chunk} (h : b.val.getLast? = some 0) : leValue b.val < 256 ^ 31 := by
  obtain ⟨bs, hbs⟩ := List.getLast?_eq_some_iff.mp h
  have hlen : bs.length = 31 := by
    have hb : b.val.length = 32 := b.property
    rw [hbs, List.length_append, List.length_singleton] at hb
    omega
  have hlt := leValue_lt bs
  rw [hbs, leValue_append, ← hlen]
  simpa [leValue] using hlt

/-- The scalar field of BLS12-381, with transforms computed by their sums. -/
def bls12381 : Ark where
  newDomain n :=
    if Nat.clog 2 n ≤ 32 then some ⟨nextPowerOfTwo n, ArkScalar.rootOfUnity (Nat.clog 2 n)⟩ else none
  fft d := dft d.groupGen d.size
  ifft d := idft d.groupGen d.size
  toBytes s := some ⟨leBytes 32 (ZMod.val (n := scalarModulus) s), length_leBytes ..⟩
  fromBytes b := if leValue b.val < scalarModulus then some ((leValue b.val : ℕ) : ArkScalar) else none
  size_newDomain := by
    intro n d h
    split_ifs at h
    cases h
    rfl
  isTransform := by
    intro n d h
    split_ifs at h with hk
    cases h
    refine dft_isTransform (ArkScalar.rootOfUnity_primitive hk) (ArkScalar.natCast_ne_zero (Nat.two_pow_pos _) ?_)
    exact lt_of_le_of_lt (Nat.pow_le_pow_right two_pos hk) (by decide)
  groupGen_pow := by
    intro m n d e hd he hdvd
    split_ifs at hd he with hm hn
    cases hd
    cases he
    have hle := (Nat.pow_dvd_pow_iff_le_right one_lt_two).mp hdvd
    show ArkScalar.rootOfUnity (Nat.clog 2 n) ^ (2 ^ Nat.clog 2 n / 2 ^ Nat.clog 2 m) = _
    rw [Nat.pow_div hle two_pos, ArkScalar.rootOfUnity, ArkScalar.rootOfUnity, ← pow_mul, ← pow_add]
    congr 2
    omega
  toBytes_isSome _ := rfl
  fromBytes_toBytes := by
    intro s b h
    cases h
    have hlt : ZMod.val (n := scalarModulus) s < scalarModulus := ZMod.val_lt _
    have hval : leValue (leBytes 32 (ZMod.val (n := scalarModulus) s)) = ZMod.val (n := scalarModulus) s :=
      leValue_leBytes (hlt.trans (by decide))
    rw [hval, if_pos hlt]
    exact congrArg some (ZMod.natCast_zmod_val (n := scalarModulus) s)
  toBytes_fromBytes := by
    intro s b h
    split_ifs at h with hlt
    cases h
    have hval : ZMod.val (n := scalarModulus) ((leValue b.val : ℕ) : ArkScalar) = leValue b.val :=
      ZMod.val_natCast_of_lt hlt
    refine congrArg some (Subtype.ext ?_)
    show leBytes 32 _ = b.val
    rw [hval]
    exact leBytes_leValue b.property
  fromBytes_isSome := by
    intro b h
    rw [if_pos ((leValue_lt_of_last h).trans (by decide))]
    rfl

theorem bls12381_newDomain_one : bls12381.newDomain 1 = some ⟨1, ArkScalar.rootOfUnity 0⟩ := by
  simp [bls12381, nextPowerOfTwo]

theorem bls12381_newDomain_two : bls12381.newDomain 2 = some ⟨2, ArkScalar.rootOfUnity 1⟩ := by
  have h : Nat.clog 2 2 = 1 := by decide
  simp [bls12381, nextPowerOfTwo, h]

theorem bls12381_newDomain_four : bls12381.newDomain 4 = some ⟨4, ArkScalar.rootOfUnity 2⟩ := by
  have h : Nat.clog 2 4 = 2 := by decide
  simp [bls12381, nextPowerOfTwo, h]

/-- On one point, the first value is the constant that is interpolated. -/
theorem bls12381_ifft_one (w a : ArkScalar) (rest : List ArkScalar) : bls12381.ifft ⟨1, w⟩ (a :: rest) = [a] := by
  simp [bls12381, dft, idft]

/-- A column of one scalar is extended to two of it. -/
theorem bls12381_extend_one (w w' a : ArkScalar) :
    bls12381.fft ⟨2, w'⟩ (bls12381.ifft ⟨1, w⟩ [a]) = [a, a] := by
  rw [bls12381_ifft_one]
  simp [bls12381, dft, List.range_succ, Finset.sum_range_succ]

/-- The bytes of a small number. -/
def smallChunk (b : UInt8) : Chunk := ⟨b :: List.replicate 31 0, rfl⟩

/-- The bytes of the commitment of a small constant. -/
def smallCommitment (b : UInt8) : List UInt8 := (smallChunk b).val ++ List.replicate 16 0

end AvailCore
