import AvailCore.Recovery.Proof

/-!
# Verification of one cell

`verify_v2` of `kate/recovery/src/proof.rs`. A light client has the commitment of a row
from its header, and a cell from a peer: the value of the row's polynomial at the point
of the cell's column, and the proof of it.

## The model

As for multiproofs, the scheme parses proofs and commitments (`Parsers`), and its `verify`
is any function of the commitment, the point, the value and the proof.

## What is proved

A column stands for a power of the generator of the domain, and nothing compares it with
the width: columns that are as far apart as the domain is large are verified alike
(`verifyV2_add_size`). So what is verified in a column is verified outside of the matrix
too, unless there are so many columns that no other `u16` stands for their points
(`verifyV2_col_iff`).
-/

namespace AvailCore

/-- `domain.element(i)` -/
def EvaluationDomain.element (d : EvaluationDomain) (i : ℕ) : ArkScalar := d.groupGen ^ i

/-- The elements are those of the numbers below its size. -/
theorem EvaluationDomain.getElem?_elements (d : EvaluationDomain) {i : ℕ} (h : i < d.size) :
    d.elements[i]? = some (d.element i) := by
  simp [EvaluationDomain.elements, EvaluationDomain.element, h]

/-- `KZGProof::verify` -/
abbrev CellVerifyFn (C P : Type) : Type := C → ArkScalar → ArkScalar → P → Option Bool

section CellVerification

variable {C P : Type} (A : Ark) (K : Parsers C P) (V : CellVerifyFn C P)

/-- `verify_v2` -/
def verifyV2 (dimensions : Dimensions) (commitment : List.Vector UInt8 commitmentSize) (cell : SingleCell) :
    Run ProofError Bool := do
  let commitment ← Run.okOr .invalidData (K.commitment commitment.val)
  let value ← Run.okOr .invalidData (A.fromBytes cell.data)
  let domain ← Run.okOr .invalidDomain (A.newDomain dimensions.width)
  let domainPoint := domain.element cell.position.col
  let proof ← Run.okOr .invalidData (K.proof cell.proof)
  Run.okOr .invalidData (V commitment domainPoint value proof)

/-- **A cell is verified** when all of it is read, and `verify` accepts it at the point of its column. -/
theorem verifyV2_eq_true_iff {dimensions : Dimensions} {commitment : List.Vector UInt8 commitmentSize}
    {cell : SingleCell} : verifyV2 A K V dimensions commitment cell = .ok true ↔
      ∃ c value domain proof, K.commitment commitment.val = some c ∧ A.fromBytes cell.data = some value ∧
        A.newDomain dimensions.width = some domain ∧ K.proof cell.proof = some proof ∧
        V c (domain.element cell.position.col) value proof = some true := by
  simp only [verifyV2, Except.bind_eq_ok, Run.okOr_eq_ok]
  constructor
  · intro h
    obtain ⟨c, hc, value, hvalue, domain, hdomain, proof, hproof, hverify⟩ := h
    exact ⟨c, value, domain, proof, hc, hvalue, hdomain, hproof, hverify⟩
  · intro h
    obtain ⟨c, value, domain, proof, hc, hvalue, hdomain, hproof, hverify⟩ := h
    exact ⟨c, hc, value, hvalue, domain, hdomain, proof, hproof, hverify⟩

/-- Every column is verified as one below the size of the domain is. -/
theorem verifyV2_mod_size (dimensions : Dimensions) (commitment : List.Vector UInt8 commitmentSize) (row col : ℕ)
    (content : List.Vector UInt8 80) : verifyV2 A K V dimensions commitment ⟨⟨row, col⟩, content⟩ =
      verifyV2 A K V dimensions commitment ⟨⟨row, col % nextPowerOfTwo dimensions.width⟩, content⟩ := by
  cases hdomain : A.newDomain dimensions.width with
  | none =>
    simp only [verifyV2, hdomain]
    rfl
  | some domain =>
    have hone : domain.groupGen ^ domain.size = 1 := (A.isTransform hdomain).primitive.pow_eq_one
    have hpoint : domain.element col = domain.element (col % domain.size) := pow_eq_pow_mod col hone
    rw [← A.size_newDomain hdomain]
    simp only [verifyV2, hdomain, Run.okOr_some, Except.ok_bind, hpoint]
    rfl

/-- **Columns that differ by the size of the domain are verified alike.** -/
theorem verifyV2_add_size {dimensions : Dimensions} {domain : EvaluationDomain}
    (hdomain : A.newDomain dimensions.width = some domain) (commitment : List.Vector UInt8 commitmentSize)
    (position : Position) (content : List.Vector UInt8 80) :
    verifyV2 A K V dimensions commitment ⟨⟨position.row, position.col + domain.size⟩, content⟩ =
      verifyV2 A K V dimensions commitment ⟨position, content⟩ := by
  rw [verifyV2_mod_size, A.size_newDomain hdomain, Nat.add_mod_right, ← verifyV2_mod_size]

/-- A scheme that accepts something, at a point of the domain. -/
def AcceptsSome (dimensions : Dimensions) : Prop :=
  ∃ domain, A.newDomain dimensions.width = some domain ∧
    ∃ c, ∃ i < domain.size, ∃ value proof, V c (domain.element i) value proof = some true

/-- `verify` accepts the value and the proof that a cell's bytes hold at a point of the domain. -/
def AcceptsAt (dimensions : Dimensions) (commitment : List.Vector UInt8 commitmentSize) (content : List.Vector UInt8 80)
    (i : ℕ) : Prop :=
  ∃ c value domain proof, K.commitment commitment.val = some c ∧
    A.fromBytes (SingleCell.mk ⟨0, 0⟩ content).data = some value ∧ A.newDomain dimensions.width = some domain ∧
    K.proof (SingleCell.mk ⟨0, 0⟩ content).proof = some proof ∧ V c (domain.element i) value proof = some true

/-- A proof and a value are verified in columns of the matrix only, of all those a position may have. -/
def Confined (dimensions : Dimensions) (commitment : List.Vector UInt8 commitmentSize) (row : ℕ)
    (content : List.Vector UInt8 80) : Prop :=
  ∀ col < 2 ^ 16, verifyV2 A K V dimensions commitment ⟨⟨row, col⟩, content⟩ = .ok true → col < dimensions.width

/-- **What is verified stays in the matrix exactly when** `verify` accepts it at no point of the domain, or there are
more columns than half of all, and none of the points that it accepts it at is past them: all columns that stand for
one point are verified alike. -/
theorem verifyV2_col_iff {dimensions : Dimensions} {commitment : List.Vector UInt8 commitmentSize} {row : ℕ}
    {content : List.Vector UInt8 80} :
    (∀ col, verifyV2 A K V dimensions commitment ⟨⟨row, col⟩, content⟩ =
      verifyV2 A K V dimensions commitment ⟨⟨row, col % nextPowerOfTwo dimensions.width⟩, content⟩) ∧
    (Confined A K V dimensions commitment row content ↔
      (∀ i < nextPowerOfTwo dimensions.width, ¬ AcceptsAt A K V dimensions commitment content i) ∨
      2 ^ 15 < dimensions.width ∧
        ∀ i < 2 ^ 16, dimensions.width ≤ i → ¬ AcceptsAt A K V dimensions commitment content i) := by
  refine ⟨fun col => verifyV2_mod_size A K V dimensions commitment row col content, ?_⟩
  have haccepts : ∀ col, verifyV2 A K V dimensions commitment ⟨⟨row, col⟩, content⟩ = .ok true ↔
      AcceptsAt A K V dimensions commitment content col := fun col => verifyV2_eq_true_iff A K V
  have halias : ∀ col, AcceptsAt A K V dimensions commitment content col ↔
      AcceptsAt A K V dimensions commitment content (col % nextPowerOfTwo dimensions.width) := by
    intro col
    rw [← haccepts, ← haccepts, verifyV2_mod_size]
  have hwidth : dimensions.width < 2 ^ 16 := dimensions.cols.property.2
  simp only [Confined, haccepts]
  constructor
  · intro h
    rw [or_iff_not_imp_left]
    intro hsome
    push Not at hsome
    obtain ⟨i, hi, haccepted⟩ := hsome
    -- the point of column `i` is that of the column a domain further on
    have hnext : AcceptsAt A K V dimensions commitment content (i + nextPowerOfTwo dimensions.width) := by
      rwa [halias, Nat.add_mod_right, Nat.mod_eq_of_lt hi]
    have hsize : 2 ^ 15 < dimensions.width := by
      by_contra hsmall
      have hle : nextPowerOfTwo dimensions.width ≤ 2 ^ 15 :=
        nextPowerOfTwo_le_iff.mpr (not_lt.mp hsmall)
      have hlt := h _ (by omega) hnext
      have := le_nextPowerOfTwo dimensions.width
      omega
    refine ⟨hsize, fun j hj hout haccepted => ?_⟩
    exact absurd (h j hj haccepted) (not_lt.mpr hout)
  · intro h col hcol haccepted
    rcases h with hnone | ⟨-, hinside⟩
    · exact absurd ((halias col).mp haccepted) (hnone _ (Nat.mod_lt _ (nextPowerOfTwo_pos _)))
    · by_contra hout
      exact hinside col hcol (not_lt.mp hout) haccepted

end CellVerification

/-- The value of 0 is 0, at any point. -/
def verifyZeroCell : CellVerifyFn Unit Unit := fun _ _ value _ => some (decide (value = 0))

/-- A cell of a small number, with the proof of a constant. -/
def smallCell (col : ℕ) (b : UInt8) : SingleCell :=
  ⟨⟨0, col⟩, ⟨infinityBytes.val ++ (smallChunk b).val, rfl⟩⟩

/-- A cell of a matrix of one column is verified in the second as well. -/
theorem verifyV2_outside : AcceptsSome bls12381 verifyZeroCell ⟨⟨1, by decide⟩, ⟨1, by decide⟩⟩ ∧
    verifyV2 bls12381 infinityParsers verifyZeroCell ⟨⟨1, by decide⟩, ⟨1, by decide⟩⟩ infinityBytes
      (smallCell 0 0) = .ok true ∧
    verifyV2 bls12381 infinityParsers verifyZeroCell ⟨⟨1, by decide⟩, ⟨1, by decide⟩⟩ infinityBytes
      (smallCell 1 0) = .ok true ∧
    ¬ (smallCell 1 0).position.col < (⟨⟨1, by decide⟩, ⟨1, by decide⟩⟩ : Dimensions).width := by
  have hdomain : bls12381.newDomain (⟨⟨1, by decide⟩, ⟨1, by decide⟩⟩ : Dimensions).width =
      some ⟨1, ArkScalar.rootOfUnity 0⟩ := bls12381_newDomain_one
  have hfirst : verifyV2 bls12381 infinityParsers verifyZeroCell ⟨⟨1, by decide⟩, ⟨1, by decide⟩⟩ infinityBytes
      (smallCell 0 0) = .ok true :=
    (verifyV2_eq_true_iff ..).mpr ⟨(), 0, _, (), rfl, rfl, hdomain, rfl, rfl⟩
  refine ⟨⟨_, hdomain, (), 0, Nat.one_pos, 0, (), rfl⟩, hfirst, ?_, by decide⟩
  exact (verifyV2_add_size bls12381 infinityParsers verifyZeroCell hdomain _ _ _).trans hfirst

end AvailCore
