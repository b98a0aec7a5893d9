import AvailCore.Recovery.CellProof
import AvailCore.Recovery.Commitments

/-!
# What the code takes from the commitment scheme

The prover's calls of the scheme, which is not part of the repository, with what they are
documented to do. `Scheme` has the bytes: commitments and proofs are 48 of them, and are
read back from them. `CellScheme` opens a polynomial at a point, `MultiScheme` several
polynomials at several points; either is complete: what it opens of the polynomial of a
commitment, `verify` accepts with the polynomial's values.

`CellScheme.atPoint` is one that computes. A commitment is the value of the polynomial at
a point `t`, which in the real scheme nobody knows, and is kept in the exponent of a group;
a proof is the value at `t` of the quotient. `MultiScheme.atPoint` folds the polynomials
with powers of a challenge, and divides by the polynomial that is 0 at the points.
-/

namespace AvailCore

open AvailCore.Fourier

/-- The bytes of commitments and proofs. -/
structure Scheme (C P : Type) extends Committer C, Parsers C P where
  /-- `proof.to_bytes()` -/
  proofToBytes : P → Option (List.Vector UInt8 commitmentSize)
  length_toBytes : ∀ {c bytes}, toBytes c = some bytes → bytes.length = commitmentSize
  commitment_toBytes : ∀ {c bytes}, toBytes c = some bytes → commitment bytes = some c
  proof_proofToBytes : ∀ {p bytes}, proofToBytes p = some bytes → proof bytes = some p

/-- Openings at one point. -/
structure CellScheme (C P : Type) extends Scheme C P where
  /-- `compute_witness_polynomial(polynomial, point)` -/
  computeWitnessPolynomial : List ArkScalar → ArkScalar → Option (List ArkScalar)
  /-- `open(witness)` -/
  openWitness : List ArkScalar → Option P
  /-- `KZGProof::verify` -/
  verify : CellVerifyFn C P
  /-- What is opened is accepted. -/
  complete : ∀ {poly c x w p}, commit poly = some c → computeWitnessPolynomial poly x = some w →
    openWitness w = some p → verify c x ((toPoly poly).eval x) p = some true

/-- Openings of several polynomials at several points, under a transcript's label. -/
structure MultiScheme (C P : Type) extends Scheme C P where
  /-- `PolyMultiProofNoPrecomp::open(transcript, evals, polys, points)` -/
  openMulti : List UInt8 → List (List ArkScalar) → List (List ArkScalar) → List ArkScalar → Option P
  /-- `PolyMultiProofNoPrecomp::verify(transcript, ..)` -/
  verify : List UInt8 → VerifyFn C P
  /-- What is opened under a label is accepted under it. -/
  complete : ∀ {label evals polys points commits p}, List.Forall₂ (fun poly c => commit poly = some c) polys commits →
    List.Forall₂ (fun poly row => row = points.map fun x => (toPoly poly).eval x) polys evals →
    openMulti label evals polys points = some p → verify label commits points evals p = some true

/-- The 48 bytes of a scalar. -/
def scalarToBytes48 (s : ArkScalar) : Option (List.Vector UInt8 commitmentSize) :=
  (bls12381.toBytes s).map fun b => ⟨b.val ++ List.replicate 16 0, by rw [List.length_append, b.property]; rfl⟩

/-- They are those of a commitment to it. -/
theorem commitment_of_toBytes {s : ArkScalar} {b : Chunk} (h : bls12381.toBytes s = some b) :
    constantParsers.commitment (b.val ++ List.replicate 16 0) = some s := by
  have htake : (b.val ++ List.replicate 16 0).take chunkSize = b.val := List.take_left' b.property
  simp only [constantParsers, htake, b.property, dif_pos]
  exact bls12381.fromBytes_toBytes h

/-- A commitment is the value at `t`, and a proof is a scalar. -/
def Scheme.atPoint (t : ArkScalar) : Scheme ArkScalar ArkScalar where
  toCommitter := Committer.atPoint t
  commitment := constantParsers.commitment
  proof bytes := constantParsers.commitment bytes.val
  proofToBytes := scalarToBytes48
  length_toBytes := by
    intro c bytes h
    have hmap : (bls12381.toBytes c).map (fun b => b.val ++ List.replicate 16 0) = some bytes := h
    obtain ⟨b, -, rfl⟩ := Option.map_eq_some_iff.mp hmap
    rw [List.length_append, b.property]
    rfl
  commitment_toBytes := by
    intro c bytes h
    have hmap : (bls12381.toBytes c).map (fun b => b.val ++ List.replicate 16 0) = some bytes := h
    obtain ⟨b, hb, rfl⟩ := Option.map_eq_some_iff.mp hmap
    exact commitment_of_toBytes hb
  proof_proofToBytes := by
    intro p bytes h
    obtain ⟨b, hb, rfl⟩ := Option.map_eq_some_iff.mp h
    exact commitment_of_toBytes hb

/-- A proof is the value at `t` of the quotient. -/
def CellScheme.atPoint (t : ArkScalar) : CellScheme ArkScalar ArkScalar where
  toScheme := Scheme.atPoint t
  computeWitnessPolynomial poly x := some (quotient x poly)
  openWitness w := some (horner t w)
  verify c x value p := some (decide (c - value = p * (t - x)))
  complete := by
    intro poly c x w p hcommit hw hp
    cases hcommit
    cases hw
    cases hp
    rw [eval_toPoly_eq_horner]
    exact congrArg some (decide_eq_true (horner_quotient x t poly))

/-- At `t`, the polynomial through these values at these points. -/
def interpolateAt (t : ArkScalar) (points values : List ArkScalar) : ArkScalar :=
  ((points.zip values).map fun p =>
    p.2 * ((points.filter fun x => x ≠ p.1).map fun x => (t - x) / (p.1 - x)).prod).sum

/-- At `t`, the polynomial that is 0 at these points. -/
def vanishingAt (t : ArkScalar) (points : List ArkScalar) : ArkScalar := (points.map fun x => t - x).prod

/-- What commitments differ by from values at points, folded with powers of the label's number. -/
def foldedDifference (t : ArkScalar) (label : List UInt8) (commits points : List ArkScalar)
    (evals : List (List ArkScalar)) : ArkScalar :=
  horner (leValue label : ArkScalar) (commits.zipWith (fun c row => c - interpolateAt t points row) evals)

/-- The quotient is that of the folded polynomials, where the points are not the secret one. -/
def MultiScheme.atPoint (t : ArkScalar) : MultiScheme ArkScalar ArkScalar where
  toScheme := Scheme.atPoint t
  openMulti label evals polys points :=
    if vanishingAt t points = 0 then none
    else some (foldedDifference t label (polys.map (horner t)) points evals / vanishingAt t points)
  verify label commits points evals p :=
    some (decide (foldedDifference t label commits points evals = p * vanishingAt t points))
  complete := by
    intro label evals polys points commits p hcommits _ hopen
    have hvalues : polys.map (horner t) = commits := by
      rw [← List.forall₂_eq_eq_eq, List.forall₂_map_left_iff]
      exact hcommits.imp fun _ _ hcommit => Option.some.inj hcommit
    split_ifs at hopen with hzero
    cases hopen
    rw [hvalues, div_mul_cancel₀ _ hzero]
    exact congrArg some (decide_eq_true rfl)

/-- 5 is no point of a domain. -/
theorem vanishingAt_five {domain : EvaluationDomain} {n : ℕ} (hdomain : bls12381.newDomain n = some domain)
    {points : List ArkScalar} (hpoints : ∀ x ∈ points, x ∈ domain.elements) : vanishingAt 5 points ≠ 0 := by
  rw [vanishingAt, Ne, List.prod_eq_zero_iff, List.mem_map]
  rintro ⟨x, hx, hzero⟩
  obtain ⟨i, -, rfl⟩ := List.mem_map.mp (hpoints x hx)
  have hone : domain.groupGen ^ domain.size = 1 := (bls12381.isTransform hdomain).primitive.pow_eq_one
  have hsize : domain.size = 2 ^ Nat.clog 2 n := bls12381.size_newDomain hdomain
  apply ArkScalar.five_pow_ne_one (Nat.clog 2 n)
  rw [sub_eq_zero.mp hzero, ← hsize, ← pow_mul, Nat.mul_comm, pow_mul, hone, one_pow]

/-- `b"avail-mp"` -/
def availMp : List UInt8 := [97, 118, 97, 105, 108, 45, 109, 112]

end AvailCore
