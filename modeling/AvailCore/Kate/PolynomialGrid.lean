import AvailCore.Kate.EvaluationGrid
import AvailCore.Recovery.Commitments

/-!
# Commitments to the rows of a grid

`PolynomialGrid` of `kate/src/gridgen/core.rs`: the polynomials that take the rows of a
grid as values, and the commitments to them. The commitments to the rows of the extended
grid are made without it, by extending the commitments themselves.

## The model

A commitment is an element of a module over the scalars. `LinearCommitter` is a
`Committer` into one, with the call that extends commitments, and with what both are
documented to do: commitment is linear, and commitments are interpolated and evaluated as
scalars are. Whether rows are committed to in turn or in parallel, there is one error
they fail with.

## What is proved

`extendedCommitments_eq_commitments`: the fast way gives the commitments of the slow
one. Extending columns and interpolating rows are linear maps that commute, as one acts
on the numbers of the rows, the other on those of the columns (`getD_row_extension`).
-/

namespace AvailCore

open AvailCore.Fourier

/-- `PolynomialGrid` -/
structure PolynomialGrid where
  inner : List (List ArkScalar)
  points : List ArkScalar
  dims : Dimensions

/-- `EvaluationGrid::make_polynomial_grid` -/
def EvaluationGrid.makePolynomialGrid (A : Ark) (g : EvaluationGrid) : Run KateError PolynomialGrid := do
  let domain ← Run.okOr .domainSizeInvalid (A.newDomain g.dims.width)
  let inner := (List.range g.dims.height).map fun y => A.ifft domain (g.evals.row y)
  return ⟨inner, domain.elements, g.dims⟩

/-- The polynomials of the rows, of degree less than the size of the domain of the width. -/
theorem EvaluationGrid.makePolynomialGrid_eq_ok {A : Ark} {g : EvaluationGrid} {p : PolynomialGrid} :
    g.makePolynomialGrid A = .ok p ↔ ∃ domain, A.newDomain g.dims.width = some domain ∧
      ⟨(List.range g.dims.height).map fun y => A.ifft domain (g.evals.row y), domain.elements, g.dims⟩ = p := by
  simp only [makePolynomialGrid, Except.bind_eq_ok, Run.okOr_eq_ok, Except.pure_eq_ok, Except.ok.injEq]

/-- The calls to the commitment scheme, and what they are documented to do. -/
structure LinearCommitter (A : Ark) (G : Type) [AddCommGroup G] [Module ArkScalar G] extends Committer G where
  /-- `Commitment::extend_commitments(commitments, n)` -/
  extendCommitments : List G → ℕ → Option (List G)
  /-- Commitment to `n` coefficients is linear, or always fails. -/
  commit_linear : ∀ n, (∀ coeffs : List ArkScalar, coeffs.length = n → commit coeffs = none) ∨
    ∃ φ : (ℕ → ArkScalar) →ₗ[ArkScalar] G, ∀ coeffs : List ArkScalar, coeffs.length = n →
      commit coeffs = some (φ fun i => coeffs.getD i 0)
  /-- Commitments that fill a domain are interpolated on it, and evaluated on one of size `n`. -/
  extendCommitments_eq : ∀ {commitments n domain domainNew}, A.newDomain commitments.length = some domain →
    A.newDomain n = some domainNew → domain.size = commitments.length → domainNew.size = n →
    extendCommitments commitments n =
      some (dft domainNew.groupGen domainNew.size (idft domain.groupGen domain.size commitments))

instance (A : Ark) (G : Type) [AddCommGroup G] [Module ArkScalar G] : CoeOut (LinearCommitter A G) (Committer G) :=
  ⟨LinearCommitter.toCommitter⟩

namespace PolynomialGrid

variable {A : Ark} {G : Type} [AddCommGroup G] [Module ArkScalar G]

/-- `PolynomialGrid::commitments` -/
def commitments {C : Type} (p : PolynomialGrid) (srs : Committer C) : Run KateError (List C) :=
  p.inner.mapM fun poly => Run.okOr .multiproofError (srs.commit poly)

/-- `PolynomialGrid::extended_commitments` -/
def extendedCommitments (p : PolynomialGrid) (srs : LinearCommitter A G) (extensionFactor : ℕ) :
    Run KateError (List G) := do
  let res ← p.inner.mapM fun coeffs => Run.okOr .multiproofError (srs.commit coeffs)
  Run.okOr .multiproofError (srs.extendCommitments res (saturatingMul res.length extensionFactor))

end PolynomialGrid

/-! ### Rows and columns -/

/-- `e` is the extension of `g` to twice its rows, between these domains. -/
structure IsExtension (A : Ark) (short d : EvaluationDomain) (g e : EvaluationGrid) : Prop where
  newShort : A.newDomain g.dims.height = some short
  newLong : A.newDomain e.dims.height = some d
  height : e.dims.height = g.dims.height * 2
  width : e.dims.width = g.dims.width
  size_short : short.size = g.dims.height
  size_long : d.size = e.dims.height
  columns : e.evals.columns = g.evals.columns.map fun col => A.fft d (A.ifft short col)

/-- As a domain of its size is asked for, the grid has a power of two of rows. -/
theorem isExtension_of_extendColumns {A : Ark} {g e : EvaluationGrid}
    (h : g.extendColumns A ⟨extensionFactor, by decide⟩ = .ok e) : ∃ short d, IsExtension A short d g e := by
  obtain ⟨-, hheight, hwidth, short, d, hshort, hd, hsize, hcolumns⟩ := EvaluationGrid.extendColumns_eq_ok h
  refine ⟨short, d, hshort, hd, hheight, hwidth, ?_, hsize, hcolumns⟩
  have hdouble : 2 ^ Nat.clog 2 e.dims.height = g.dims.height * 2 := by
    have hnext := A.size_newDomain hd
    rw [hsize, hheight] at hnext
    rw [hheight]
    exact hnext.symm
  have hpos := g.dims.height_pos
  cases hk : Nat.clog 2 e.dims.height with
  | zero =>
    rw [hk] at hdouble
    omega
  | succ k =>
    rw [hk, pow_succ] at hdouble
    have hrows : g.dims.height = 2 ^ k := by omega
    rw [A.size_newDomain hshort, hrows, nextPowerOfTwo_two_pow]

section Extension

variable {A : Ark} {short d : EvaluationDomain} {g e : EvaluationGrid} (h : IsExtension A short d g e)
include h

/-- **A row of the extension is a sum of the rows**, with factors that depend on its number. -/
theorem getD_row_extension {y : ℕ} (hy : y < e.dims.height) (j : ℕ) :
    (e.evals.row y).getD j 0 = ∑ k ∈ Finset.range short.size,
      extensionCoeff short.groupGen d.groupGen short.size y k • (g.evals.row k).getD j 0 := by
  have hrow : ∀ k ∈ Finset.range short.size,
      extensionCoeff short.groupGen d.groupGen short.size y k • (g.evals.row k).getD j 0 =
        extensionCoeff short.groupGen d.groupGen short.size y k •
          (g.evals.columns.map fun column => column.getD k 0).getD j 0 := by
    intro k hk
    rw [g.evals.row_eq_map (h.size_short ▸ Finset.mem_range.mp hk) 0]
  have hle : short.size ≤ d.size := by
    rw [h.size_short, h.size_long, h.height]
    omega
  rw [e.evals.row_eq_map hy 0, h.columns, Finset.sum_congr rfl hrow]
  simp only [List.getD_eq_getElem?_getD, List.getElem?_map]
  cases g.evals.columns[j]? with
  | none => simp
  | some col =>
    have hextend := @getD_dft_idft _ _ _ _ _ short.groupGen d.groupGen _ _ y hle (h.size_long ▸ hy) col
    simp only [List.getD_eq_getElem?_getD] at hextend
    simp only [Option.map_some, Option.getD_some, (A.eq_dft h.newLong).1, (A.eq_dft h.newShort).2, hextend]

/-- Interpolating the rows keeps it so. -/
theorem getD_ifft_row_extension {n : ℕ} {domain : EvaluationDomain} (hdomain : A.newDomain n = some domain) {y : ℕ}
    (hy : y < e.dims.height) (i : ℕ) :
    (A.ifft domain (e.evals.row y)).getD i 0 = ∑ k ∈ Finset.range short.size,
      extensionCoeff short.groupGen d.groupGen short.size y k • (A.ifft domain (g.evals.row k)).getD i 0 := by
  rw [(A.eq_dft hdomain).2]
  exact getD_idft_sum (fun j _ => getD_row_extension h hy j) i

end Extension

/-! ### The commitments -/

section Commitments

variable {A : Ark} {G : Type} [AddCommGroup G] [Module ArkScalar G] {srs : LinearCommitter A G}
  {domain : EvaluationDomain}

/-- The commitments to the rows of a grid. -/
theorem mapM_commit_rows {n : ℕ} (hdomain : A.newDomain n = some domain) {φ : (ℕ → ArkScalar) →ₗ[ArkScalar] G}
    (hφ : ∀ coeffs : List ArkScalar, coeffs.length = domain.size →
      srs.commit coeffs = some (φ fun i => coeffs.getD i 0)) (g : EvaluationGrid) :
    ((List.range g.dims.height).map fun y => A.ifft domain (g.evals.row y)).mapM (fun coeffs =>
        (Run.okOr .multiproofError (srs.commit coeffs) : Run KateError G)) =
      .ok ((List.range g.dims.height).map fun y => φ fun i => (A.ifft domain (g.evals.row y)).getD i 0) := by
  rw [Except.mapM_ok_iff, List.forall₂_map_left_iff, List.forall₂_map_right_iff, List.forall₂_same]
  intro y _
  rw [hφ _ ((A.isTransform hdomain).length_ifft _), Run.okOr_some]

/-- When no polynomial of a domain can be committed to, no grid can. -/
theorem mapM_commit_rows_fail {n : ℕ} (hdomain : A.newDomain n = some domain)
    (hnone : ∀ coeffs : List ArkScalar, coeffs.length = domain.size → srs.commit coeffs = none)
    (g : EvaluationGrid) :
    ((List.range g.dims.height).map fun y => A.ifft domain (g.evals.row y)).mapM (fun coeffs =>
      (Run.okOr .multiproofError (srs.commit coeffs) : Run KateError G)) = Run.fail .multiproofError := by
  obtain ⟨rest, hrest⟩ : ∃ rest, List.range g.dims.height = 0 :: rest := by
    obtain ⟨height, hheight⟩ := Nat.exists_eq_succ_of_ne_zero g.dims.height_pos.ne'
    exact ⟨_, by rw [hheight, List.range_succ_eq_map]⟩
  rw [hrest, List.map_cons, List.mapM_cons, hnone _ ((A.isTransform hdomain).length_ifft _), Run.okOr_none]
  rfl

/-- Extended, they are the commitments to the rows of the extension. -/
theorem extendCommitments_rows {n : ℕ} (hdomain : A.newDomain n = some domain) {short d : EvaluationDomain}
    {g e : EvaluationGrid} (h : IsExtension A short d g e) (φ : (ℕ → ArkScalar) →ₗ[ArkScalar] G) :
    srs.extendCommitments ((List.range g.dims.height).map fun y => φ fun i => (A.ifft domain (g.evals.row y)).getD i 0)
        e.dims.height =
      some ((List.range e.dims.height).map fun y => φ fun i => (A.ifft domain (e.evals.row y)).getD i 0) := by
  set coms := (List.range g.dims.height).map fun y => φ fun i => (A.ifft domain (g.evals.row y)).getD i 0 with hcoms
  have hlength : coms.length = g.dims.height := by rw [hcoms, List.length_map, List.length_range]
  have hcom : ∀ k ∈ Finset.range short.size, coms.getD k 0 = φ fun i => (A.ifft domain (g.evals.row k)).getD i 0 := by
    intro k hk
    rw [h.size_short, Finset.mem_range] at hk
    simp [hcoms, List.getD_eq_getElem?_getD, hk]
  have hle : short.size ≤ d.size := by
    rw [h.size_short, h.size_long, h.height]
    omega
  rw [srs.extendCommitments_eq (hlength ▸ h.newShort) h.newLong (hlength ▸ h.size_short) h.size_long,
    Option.some.injEq]
  refine List.ext_getElem (by simp [h.size_long]) fun y hy hy' => ?_
  have hlt : y < d.size := by simpa using hy
  have hrows : (fun i => (A.ifft domain (e.evals.row y)).getD i 0) = ∑ k ∈ Finset.range short.size,
      extensionCoeff short.groupGen d.groupGen short.size y k •
        fun i => (A.ifft domain (g.evals.row k)).getD i 0 := by
    funext i
    rw [getD_ifft_row_extension h hdomain (h.size_long ▸ hlt) i, Finset.sum_apply]
    rfl
  calc (dft d.groupGen d.size (idft short.groupGen short.size coms))[y]
      = (dft d.groupGen d.size (idft short.groupGen short.size coms)).getD y 0 := by
        rw [List.getD_eq_getElem _ _ hy]
    _ = ∑ k ∈ Finset.range short.size, extensionCoeff short.groupGen d.groupGen short.size y k •
          φ fun i => (A.ifft domain (g.evals.row k)).getD i 0 := by
        rw [getD_dft_idft hle hlt]
        exact Finset.sum_congr rfl fun k hk => by rw [hcom k hk]
    _ = φ fun i => (A.ifft domain (e.evals.row y)).getD i 0 := by
        rw [hrows, map_sum]
        exact Finset.sum_congr rfl fun k _ => by rw [map_smul]
    _ = _ := by simp

end Commitments

/-- **Extending the commitments gives the commitments of the extension.** -/
theorem extendedCommitments_eq_commitments (A : Ark) {G : Type} [AddCommGroup G] [Module ArkScalar G]
    (srs : LinearCommitter A G) {g e : EvaluationGrid} (he : g.extendColumns A ⟨extensionFactor, by decide⟩ = .ok e) :
    (do let p ← g.makePolynomialGrid A; p.extendedCommitments srs extensionFactor) =
      (do let p ← e.makePolynomialGrid A; p.commitments srs) := by
  obtain ⟨short, d, h⟩ := isExtension_of_extendColumns he
  cases hdomain : A.newDomain g.dims.width with
  | none =>
    have hdomain' : A.newDomain e.dims.width = none := by rw [h.width, hdomain]
    simp only [EvaluationGrid.makePolynomialGrid, hdomain, hdomain', Run.okOr_none]
    rfl
  | some domain =>
    have hdomain' : A.newDomain e.dims.width = some domain := by rw [h.width, hdomain]
    simp only [EvaluationGrid.makePolynomialGrid, hdomain, hdomain', Run.okOr_some, Except.ok_bind,
      Except.pure_eq_ok, PolynomialGrid.commitments, PolynomialGrid.extendedCommitments]
    rcases srs.commit_linear domain.size with hnone | ⟨φ, hφ⟩
    · rw [mapM_commit_rows_fail hdomain hnone g, mapM_commit_rows_fail hdomain hnone e]
      rfl
    · have hrows : saturatingMul g.dims.height extensionFactor = e.dims.height := by
        have hlt : g.dims.height < 2 ^ 16 := g.dims.rows.property.2
        have hlimit : 2 ^ 17 ≤ usizeLimit - 1 := by decide
        have hle : g.dims.height * 2 ≤ usizeLimit - 1 := by omega
        rw [h.height]
        exact Nat.min_eq_left hle
      rw [mapM_commit_rows hdomain hφ g, mapM_commit_rows hdomain hφ e, Except.ok_bind, List.length_map,
        List.length_range, hrows, extendCommitments_rows hdomain h φ, Run.okOr_some]

/-- The value at `t` is linear in the coefficients. -/
def LinearCommitter.atPoint (t : ArkScalar) : LinearCommitter bls12381 ArkScalar where
  toCommitter := Committer.atPoint t
  extendCommitments commitments n := do
    let domain ← bls12381.newDomain commitments.length
    let domainNew ← bls12381.newDomain n
    return dft domainNew.groupGen domainNew.size (idft domain.groupGen domain.size commitments)
  commit_linear n := by
    refine Or.inr ⟨∑ i ∈ Finset.range n, t ^ i • LinearMap.proj i, fun coeffs hlen => ?_⟩
    refine (congrArg some (horner_eq_sum t coeffs)).trans ?_
    simp [hlen]
  extendCommitments_eq := by
    intro commitments n domain domainNew hdomain hdomainNew _ _
    simp [hdomain, hdomainNew]

/-- The polynomials of the extension of two applications. -/
def twoAppsPolynomials : PolynomialGrid where
  inner := (List.range 4).map fun y => bls12381.ifft ⟨4, ArkScalar.rootOfUnity 2⟩ (twoAppsExtended.evals.row y)
  points := (⟨4, ArkScalar.rootOfUnity 2⟩ : EvaluationDomain).elements
  dims := twoAppsExtended.dims

theorem makePolynomialGrid_twoApps : twoAppsExtended.makePolynomialGrid bls12381 = .ok twoAppsPolynomials :=
  EvaluationGrid.makePolynomialGrid_eq_ok.mpr ⟨_, bls12381_newDomain_four, rfl⟩

/-- Values at a point are the commitments to any polynomials. -/
theorem PolynomialGrid.commitments_atPoint (p : PolynomialGrid) (t : ArkScalar) :
    p.commitments (Committer.atPoint t) = .ok (p.inner.map (horner t)) :=
  Except.mapM_eq_map fun _ _ => rfl

/-- The polynomials of the extension of a column of one scalar. -/
theorem makePolynomialGrid_oneColumn : (oneColumn ⟨2, by decide⟩).makePolynomialGrid bls12381 =
    .ok ⟨[[328708], [328708]], [1], (oneColumn ⟨2, by decide⟩).dims⟩ := by
  have hdomain : bls12381.newDomain (oneColumn ⟨2, by decide⟩).dims.width = some ⟨1, ArkScalar.rootOfUnity 0⟩ :=
    bls12381_newDomain_one
  have hinner : (List.range (oneColumn ⟨2, by decide⟩).dims.height).map (fun y =>
      bls12381.ifft ⟨1, ArkScalar.rootOfUnity 0⟩ ((oneColumn ⟨2, by decide⟩).evals.row y)) =
        [bls12381.ifft ⟨1, ArkScalar.rootOfUnity 0⟩ [328708], bls12381.ifft ⟨1, ArkScalar.rootOfUnity 0⟩ [328708]] := rfl
  rw [EvaluationGrid.makePolynomialGrid_eq_ok]
  refine ⟨_, hdomain, ?_⟩
  rw [hinner, bls12381_ifft_one]
  simp [EvaluationDomain.elements]

/-- The commitments to a column of one scalar and to its extension. -/
theorem extendedCommitments_eq_commitments_one :
    (do
      let p ← (oneColumn ⟨1, by decide⟩).makePolynomialGrid bls12381
      p.extendedCommitments (LinearCommitter.atPoint 2) extensionFactor) = .ok [328708, 328708] := by
  rw [extendedCommitments_eq_commitments bls12381 (LinearCommitter.atPoint 2) extendColumns_one]
  have hcommit : (LinearCommitter.atPoint 2).commit [328708] = some 328708 := by
    simp [LinearCommitter.atPoint, Committer.atPoint]
  simp [makePolynomialGrid_oneColumn, PolynomialGrid.commitments, hcommit]

end AvailCore
