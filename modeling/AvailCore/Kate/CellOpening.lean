import AvailCore.Kate.BuildProof
import AvailCore.Kate.PolynomialGrid

/-!
# Proofs of the cells of a grid

`PolynomialGrid::proof` of `kate/src/gridgen/core.rs`: the polynomial of the cell's row is
opened at the point of its column. A row outside the grid is an error. The points are
those of a domain, of which there may be more than columns, and a column is an index into
them.

## What is proved

Which way a call ends, for every cell (`PolynomialGrid.proof_eq`). From it,
`opensInside_iff`: it is inside the grid that a call returns a proof, and outside that it
returns an error, for the cells that are not right of the grid.
-/

namespace AvailCore

variable {C P : Type}

/-- `PolynomialGrid::proof` -/
def PolynomialGrid.proof (p : PolynomialGrid) (srs : CellScheme C P) (cell : Cell) : Run KateError P := do
  let x := cell.col.toNat
  let y := cell.row.toNat
  let poly ← Run.okOr .cellLengthExceeded p.inner[y]?
  let point ← Run.index p.points x
  let witness ← Run.okOr .multiproofError (srs.computeWitnessPolynomial poly point)
  Run.okOr .multiproofError (srs.openWitness witness)

/-- The opening of the polynomial of a row at the point of a column. -/
def openAt (A : Ark) (g : EvaluationGrid) (domain : EvaluationDomain) (srs : CellScheme C P) (y x : ℕ) :
    Run KateError P := do
  let witness ← Run.okOr .multiproofError
    (srs.computeWitnessPolynomial (A.ifft domain (g.evals.row y)) (domain.element x))
  Run.okOr .multiproofError (srs.openWitness witness)

/-- **How a call ends**: with an error below the grid, with a panic right of all the points, and
else as the opening does. -/
theorem PolynomialGrid.proof_eq {A : Ark} {g : EvaluationGrid} {p : PolynomialGrid} (hp : g.makePolynomialGrid A = .ok p)
    {domain : EvaluationDomain} (hdomain : A.newDomain g.dims.width = some domain) (srs : CellScheme C P) (cell : Cell) :
    p.proof srs cell =
      if cell.row.toNat < g.dims.height then
        if cell.col.toNat < domain.size then openAt A g domain srs cell.row.toNat cell.col.toNat
        else .error .panic
      else Run.fail .cellLengthExceeded := by
  obtain ⟨domain', hdomain', rfl⟩ := EvaluationGrid.makePolynomialGrid_eq_ok.mp hp
  obtain rfl : domain = domain' := Option.some.inj (hdomain.symm.trans hdomain')
  have hpoly : ((List.range g.dims.height).map fun y => A.ifft domain (g.evals.row y))[cell.row.toNat]? =
      if cell.row.toNat < g.dims.height then some (A.ifft domain (g.evals.row cell.row.toNat)) else none := by
    split_ifs with hrow
    · simp [hrow]
    · simp [not_lt.mp hrow]
  simp only [PolynomialGrid.proof, hpoly]
  split_ifs with hrow hcol
  · rw [Run.okOr_some, Except.ok_bind, Run.index, domain.getElem?_elements hcol]
    rfl
  · have hnone : domain.elements[cell.col.toNat]? = none :=
      List.getElem?_eq_none (domain.length_elements.trans_le (not_lt.mp hcol))
    rw [Run.okOr_some, Except.ok_bind, Run.index, hnone]
    rfl
  · rfl

/-- An opening returns. -/
theorem returns_openAt (A : Ark) (g : EvaluationGrid) (domain : EvaluationDomain) (srs : CellScheme C P) (y x : ℕ) :
    (openAt A g domain srs y x).Returns := by
  rw [openAt, Run.returns_bind]
  exact ⟨Run.returns_okOr .., fun _ _ => Run.returns_okOr ..⟩

/-- A call returns, and returns a proof only for a cell of the grid. -/
structure OpensInside (g : EvaluationGrid) (p : PolynomialGrid) (srs : CellScheme C P) (cell : Cell) : Prop where
  returns : (p.proof srs cell).Returns
  inside : ∀ proof, p.proof srs cell = .ok proof → cell.row.toNat < g.dims.height ∧ cell.col.toNat < g.dims.width

/-- **Only a cell of the grid is proved, and else there is an error**: so it is, whatever the
scheme, for the cells below the grid or not right of it. -/
theorem opensInside_iff {A : Ark} {g : EvaluationGrid} {p : PolynomialGrid} (hp : g.makePolynomialGrid A = .ok p)
    (cell : Cell) : (∀ (C P : Type) (srs : CellScheme C P), OpensInside g p srs cell) ↔
      g.dims.height ≤ cell.row.toNat ∨ cell.col.toNat < g.dims.width := by
  obtain ⟨domain, hdomain, -⟩ := EvaluationGrid.makePolynomialGrid_eq_ok.mp hp
  have hsize : g.dims.width ≤ domain.size := A.size_newDomain hdomain ▸ le_nextPowerOfTwo _
  constructor
  · intro h
    by_contra hout
    rw [not_or, not_le, not_lt] at hout
    have heq := PolynomialGrid.proof_eq hp hdomain (CellScheme.atPoint 2) cell
    have hopens := h _ _ (CellScheme.atPoint 2)
    rw [if_pos hout.1] at heq
    split_ifs at heq with hcol
    · -- a point to the right of the grid: the opening succeeds
      obtain ⟨-, hinside⟩ := hopens.inside _ heq
      exact absurd hinside (not_lt.mpr hout.2)
    · have hreturns := hopens.returns
      rw [heq] at hreturns
      exact Run.not_returns_panic hreturns
  · intro hcell C P srs
    have heq := PolynomialGrid.proof_eq hp hdomain srs cell
    split_ifs at heq with hrow hcol
    · exact ⟨heq ▸ returns_openAt A g domain srs _ _, fun _ _ => ⟨hrow, hcell.resolve_left (not_le.mpr hrow)⟩⟩
    · exact absurd ((hcell.resolve_left (not_le.mpr hrow)).trans_le hsize) hcol
    · refine ⟨heq ▸ Run.returns_fail _, fun proof hproof => ?_⟩
      rw [heq] at hproof
      cases hproof

/-- The cell of the only column. -/
theorem opensInside_iff_one : OpensInside (oneColumn ⟨2, by decide⟩)
    ⟨[[328708], [328708]], [1], (oneColumn ⟨2, by decide⟩).dims⟩ (CellScheme.atPoint 2) ⟨0, 0⟩ :=
  (opensInside_iff makePolynomialGrid_oneColumn ⟨0, 0⟩).mpr (Or.inr (by decide)) _ _ _

/-- There is no point for the column next to it. -/
theorem proof_panics_next_column : (do
    let p ← (oneColumn ⟨2, by decide⟩).makePolynomialGrid bls12381
    p.proof (CellScheme.atPoint 2) ⟨0, 1⟩) = .error .panic := by
  rw [makePolynomialGrid_oneColumn]
  rfl

end AvailCore
