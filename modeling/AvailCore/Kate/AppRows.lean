import AvailCore.Kate.PolynomialGrid

/-!
# The rows of an application

Two producers and a verifier compute which rows of the extended grid hold the data of an
application. `EvaluationGrid::app_rows` of `kate/src/gridgen/core.rs` starts from its
range of cells, and steps by the factor between the grid and the original dimensions;
`scalars_to_app_rows` of `kate/src/com.rs` and `verify_equality` of
`kate/recovery/src/commitments.rs` start from the original dimensions alone.

## The model

A `u32` fits in a `usize`, so that the conversion of a lineal index does not fail. The
commitments of a grid are those of a header: the bytes of the commitments to its rows.

## What is proved

Supplied with some of the rows, a light client verifies those, and misses the others
(`verifyEquality_supplied`). The producers supply what it asks for, all of it
(`verifyEquality_appRows`).
What the grid supplies for an application are rows of the data (`appRows_extended`).
-/

namespace AvailCore

open Chunks AvailCore.Fourier

/-! ### The producers -/

/-- `AppRowError` -/
inductive AppRowError where
  | origDimNotDivisible
  | idNotFound (appId : AppId)
  | linealIndexOverflows
  deriving DecidableEq, Repr

/-- `(first..=last).step_by(step)`, which panics when the step is 0. -/
def stepBy {ε : Type} (first last step : ℕ) : Run ε (List ℕ) := do
  Run.assert (decide (step ≠ 0))
  return if first ≤ last then List.range' first ((last - first) / step + 1) step else []

/-- `row_from_lineal_index` -/
def rowFromLinealIndex (cols : ℕ) (linealIndex : UInt32) : Run AppRowError ℕ := return linealIndex.toNat / cols

/-- The original dimensions, of which those of the grid are multiples. -/
def EvaluationGrid.origDims (g : EvaluationGrid) : Option Dimensions → Run AppRowError Dimensions
  | some d => do
    Run.ensure (d.divides g.dims) .origDimNotDivisible
    return d
  | none => return g.dims

/-- `EvaluationGrid::app_rows` -/
def EvaluationGrid.appRows (b : Build) (g : EvaluationGrid) (appId : AppId) (maybeOrigDims : Option Dimensions) :
    Run AppRowError (Option (List (ℕ × List ArkScalar))) := do
  let origDims ← g.origDims maybeOrigDims
  let hMul := g.dims.height / origDims.height
  let range ← Run.okOr (.idNotFound appId) (g.lookup.rangeOf appId)
  let startY ← rowFromLinealIndex origDims.width range.start
  let endY ← rowFromLinealIndex origDims.width (saturatingSub32 range.end_ 1)
  Run.assert (b = .wrapping ∨ startY < g.dims.height)
  Run.assert (b = .wrapping ∨ endY < g.dims.height)
  let ys ← stepBy (startY * hMul) (endY * hMul) hMul
  return ys.mapM fun y => (g.row y).map fun a => (y, a)

/-- `scalars_to_app_rows` -/
def scalarsToAppRows {ε : Type} {nrows ncols : ℕ} (b : Build) (A : Ark) (id : AppId) (lookup : DataLookup)
    (dimensions : Dimensions) (matrix : DMatrix ArkScalar nrows ncols) : Run ε (List (Option (List UInt8))) := do
  let appRows ← appSpecificRows b lookup dimensions id
  (List.range dimensions.extendedRows).mapM fun i =>
    if appRows.any fun row => row == i then do
      let row ← matrix.getRow i
      return rowBytes A row
    else return none

/-- `filled[p.0] = Some(bytes of p.1)` -/
def fillRow {ε : Type} (A : Ark) (filled : List (Option (List UInt8))) (p : ℕ × List ArkScalar) :
    Run ε (List (Option (List UInt8))) := do
  Run.assert (p.1 < filled.length)
  let bytes ← Run.unwrap (rowBytes A p.2)
  return filled.set p.1 (some bytes)

/-- A vector of `n` rows, of which these are supplied, at their indices. -/
def fillRows {ε : Type} (A : Ark) (n : ℕ) (rows : List (ℕ × List ArkScalar)) : Run ε (List (Option (List UInt8))) :=
  rows.foldlM (fillRow A) (List.replicate n none)

/-- The bytes of the commitments to the rows of a grid. -/
def EvaluationGrid.commitmentsBytes {C : Type} (A : Ark) (P : Committer C) (g : EvaluationGrid) :
    Run KateError (List (List UInt8)) := do
  let p ← g.makePolynomialGrid A
  let commitments ← p.commitments P
  commitments.mapM fun c => Run.unwrap (P.toBytes c)

/-! ### The rows of a range of cells -/

/-- The data rows of the extension, from that of one cell to that of another. -/
def rangeRows (d : Dimensions) (range : DataLookupRange) : List ℕ :=
  Dimensions.stepRows (range.start.toNat / d.width * extensionFactor)
    ((range.end_.toNat - 1) / d.width * extensionFactor)

/-- A range of cells of the data matrix. -/
structure InData (d : Dimensions) (range : DataLookupRange) : Prop where
  nonempty : range.start < range.end_
  end_le : range.end_.toNat ≤ d.size

namespace InData

variable {d : Dimensions} {range : DataLookupRange} (h : InData d range)
include h

theorem start_lt : range.start.toNat < range.end_.toNat := UInt32.lt_iff_toNat_lt.mp h.nonempty

theorem div_lt {i : ℕ} (hi : i < range.end_.toNat) : i / d.width < d.height :=
  d.div_width_lt (hi.trans_le h.end_le)

theorem one_le : (1 : UInt32) ≤ range.end_ := UInt32.le_iff_toNat_le.mpr (Nat.one_le_of_lt h.start_lt)

theorem end_ne_zero : range.end_ ≠ 0 := by
  intro hzero
  have hstart := h.start_lt
  rw [hzero] at hstart
  exact absurd hstart (Nat.not_lt_zero _)

theorem toNat_last : (range.end_ - 1).toNat = range.end_.toNat - 1 := toNat_sub_one h.end_ne_zero

theorem last_lt : range.end_.toNat - 1 < range.end_.toNat := Nat.sub_one_lt_of_lt h.start_lt

/-- The verifier asks for these rows. -/
theorem appSpecificRows_eq {ε : Type} (b : Build) {index : DataLookup} {id : AppId}
    (hid : index.rangeOf id = some range) :
    (appSpecificRows b index d id : Run ε _) = .ok (rangeRows d range) := by
  have hfits := d.extendedRow_lt (h.start_lt.trans_le h.end_le)
  apply (appSpecificRows_eq_ok_iff hid h.end_ne_zero h.end_le).mpr
  rw [Nat.mod_eq_of_lt hfits]
  exact ⟨fun _ => hfits, rfl⟩

omit h in
theorem rangeRows_sorted : (rangeRows d range).Pairwise (· < ·) := Dimensions.pairwise_stepRows _ _

theorem lt_of_mem_rangeRows {y : ℕ} (hy : y ∈ rangeRows d range) : y < d.extendedRows := by
  have hlast := h.div_lt h.last_lt
  obtain ⟨i, -, hle, rfl⟩ := Dimensions.mem_stepRows.mp hy
  exact Nat.mul_lt_mul_of_pos_right (hle.trans_lt hlast) Nat.two_pos

end InData

/-! ### Rows and their bytes -/

/-- Every scalar has bytes, and a row those of its scalars. -/
theorem exists_chunk_rowBytes (A : Ark) : ∃ chunk : ArkScalar → Chunk, (∀ s, A.toBytes s = some (chunk s)) ∧
    ∀ row, rowBytes A row = some (row.map fun s => (chunk s).val).flatten := by
  choose chunk hchunk using fun s => Option.isSome_iff_exists.mp (A.toBytes_isSome s)
  refine ⟨chunk, hchunk, fun row => rowBytes_of_hasBytes ?_⟩
  rw [List.forall₂_map_right_iff, List.forall₂_same]
  intro s _
  exact ⟨chunk s, hchunk s, rfl⟩

/-- The bytes of a row are read as its scalars. -/
theorem tryIntoScalars_rowBytes (A : Ark) (row : List ArkScalar) :
    ∃ bytes, rowBytes A row = some bytes ∧ tryIntoScalars A bytes = .ok row := by
  obtain ⟨chunk, hchunk, hbytes⟩ := exists_chunk_rowBytes A
  have hlength : ∀ c ∈ row.map fun s => (chunk s).val, c.length = chunkSize := by
    intro c hc
    obtain ⟨s, -, rfl⟩ := List.mem_map.mp hc
    exact (chunk s).property
  have hrem : remainder chunkSize (row.map fun s => (chunk s).val).flatten = [] := by
    rw [← List.length_eq_zero_iff, length_remainder, length_flatten_uniform hlength, Nat.mul_mod_left]
  refine ⟨_, hbytes row, ?_⟩
  rw [tryIntoScalars, hrem, chunksExact_flatten chunkSize_pos hlength]
  rw [List.isEmpty_nil, Run.ensure_true, Except.ok_bind, Except.mapM_ok_iff, List.forall₂_map_left_iff,
    List.forall₂_same]
  intro s _
  exact tryIntoScalar_eq_ok.mpr ⟨(chunk s).property, A.fromBytes_toBytes (hchunk s)⟩

/-- The rows of a grid that are picked, by their index. -/
def EvaluationGrid.supplied (A : Ark) (e : EvaluationGrid) (keep : ℕ → Bool) : List (Option (List UInt8)) :=
  (List.range e.dims.height).map fun i => if keep i then rowBytes A (e.evals.row i) else none

/-- The commitments are those of the polynomials of the rows. -/
theorem commitmentsBytes_eq_ok {C : Type} {A : Ark} {P : Committer C} {e : EvaluationGrid}
    {commitments : List (List UInt8)} (h : e.commitmentsBytes A P = .ok commitments) :
    ∃ domain, A.newDomain e.dims.width = some domain ∧ List.Forall₂ (fun i c =>
      P.commitBytes (A.ifft domain (e.evals.row i)) = .ok c) (List.range e.dims.height) commitments := by
  simp only [EvaluationGrid.commitmentsBytes, PolynomialGrid.commitments, Except.bind_eq_ok] at h
  obtain ⟨p, hp, cs, hcs, hbytes⟩ := h
  obtain ⟨domain, hdomain, rfl⟩ := EvaluationGrid.makePolynomialGrid_eq_ok.mp hp
  rw [Except.mapM_ok_iff, List.forall₂_map_left_iff] at hcs
  refine ⟨domain, hdomain, List.forall₂_iff_get.mpr ?_⟩
  have hbytes := Except.mapM_ok_iff.mp hbytes
  refine ⟨hcs.length_eq.trans hbytes.length_eq, fun i hi hi' => ?_⟩
  have hi'' : i < cs.length := hcs.length_eq ▸ hi
  have hcommit := hcs.get hi hi''
  have htoBytes := hbytes.get hi'' hi'
  rw [Run.okOr_eq_ok] at hcommit
  rw [Run.unwrap_eq_ok] at htoBytes
  rw [Committer.commitBytes, hcommit, Run.okOr_some, Except.ok_bind, htoBytes, Run.okOr_some]

/-! ### Supplied rows -/

section Supplied

variable {A : Ark} {e : EvaluationGrid}

theorem length_supplied (keep : ℕ → Bool) : (e.supplied A keep).length = e.dims.height := by
  rw [EvaluationGrid.supplied, List.length_map, List.length_range]

theorem supplied_congr {keep keep' : ℕ → Bool} (h : ∀ i < e.dims.height, keep i = keep' i) :
    e.supplied A keep = e.supplied A keep' := by
  refine List.map_congr_left fun i hi => ?_
  rw [h i (List.mem_range.mp hi)]

/-- A row is put in its place. -/
theorem set_supplied_some (keep : ℕ → Bool) (y : ℕ) {bytes : List UInt8} (h : rowBytes A (e.evals.row y) = some bytes) :
    (e.supplied A keep).set y (some bytes) = e.supplied A fun i => i == y || keep i := by
  refine List.ext_getElem (by simp [length_supplied]) fun i hi hi' => ?_
  by_cases hiy : i = y
  · subst hiy
    simp [EvaluationGrid.supplied, h]
  · simp [EvaluationGrid.supplied, hiy, List.getElem_set_ne (Ne.symm hiy)]

/-- A row is taken away. -/
theorem set_supplied_none (keep : ℕ → Bool) (y : ℕ) :
    (e.supplied A keep).set y none = e.supplied A fun i => i != y && keep i := by
  refine List.ext_getElem (by simp [length_supplied]) fun i hi hi' => ?_
  by_cases hiy : i = y
  · subst hiy
    simp [EvaluationGrid.supplied]
  · simp [EvaluationGrid.supplied, hiy, List.getElem_set_ne (Ne.symm hiy)]

theorem fillRow_supplied {ε : Type} (keep : ℕ → Bool) {y : ℕ} (hy : y < e.dims.height) :
    (fillRow A (e.supplied A keep) (y, e.evals.row y) : Run ε _) = .ok (e.supplied A fun i => i == y || keep i) := by
  obtain ⟨bytes, hbytes, -⟩ := tryIntoScalars_rowBytes A (e.evals.row y)
  simp [fillRow, Run.assert, length_supplied, hy, hbytes, set_supplied_some keep y hbytes]

/-- Rows of the grid are added to those that are there. -/
theorem foldlM_fillRow {ε : Type} {ys : List ℕ} (h : ∀ y ∈ ys, y < e.dims.height) (keep : ℕ → Bool) :
    (ys.map fun y => (y, e.evals.row y)).foldlM (fillRow A) (e.supplied A keep) =
      (.ok (e.supplied A fun i => ys.contains i || keep i) : Run ε _) := by
  induction ys generalizing keep with
  | nil => simp
  | cons y ys ih =>
    rw [List.map_cons, List.foldlM_cons, fillRow_supplied keep (h y (List.mem_cons_self ..)), Except.ok_bind,
      ih fun z hz => h z (List.mem_cons_of_mem _ hz)]
    refine congrArg Except.ok (supplied_congr fun i _ => ?_)
    rw [List.contains_cons, ← Bool.or_assoc, Bool.or_comm (ys.contains i)]

/-- The vector is filled with these rows of the grid. -/
theorem fillRows_eq {ε : Type} {ys : List ℕ} (h : ∀ y ∈ ys, y < e.dims.height) :
    (fillRows A e.dims.height (ys.map fun y => (y, e.evals.row y)) : Run ε _) =
      .ok (e.supplied A fun i => ys.contains i) := by
  have hempty : List.replicate e.dims.height none = e.supplied A fun _ => false := by
    simp [EvaluationGrid.supplied, List.map_const']
  rw [fillRows, hempty, foldlM_fillRow h]
  simp only [Bool.or_false]

/-- The rows of an application are supplied. -/
theorem scalarsToAppRows_eq {ε : Type} {b : Build} {id : AppId} {lookup : DataLookup} {dimensions : Dimensions}
    {v : List ℕ} (h : (appSpecificRows b lookup dimensions id : Run ε _) = .ok v)
    (hheight : e.dims.height = dimensions.extendedRows) :
    (scalarsToAppRows b A id lookup dimensions e.evals : Run ε _) = .ok (e.supplied A fun i => v.contains i) := by
  rw [scalarsToAppRows, h, Except.ok_bind, ← hheight]
  refine Except.mapM_eq_map fun i hi => ?_
  have hcontains : (v.any fun row => row == i) = v.contains i := by
    rw [List.contains_eq_any_beq]
    simp only [BEq.comm]
  rw [hcontains]
  split_ifs with hmem
  · simp [DMatrix.getRow, Run.assert, List.mem_range.mp hi]
  · rfl

/-- What is supplied of a row verifies. -/
theorem verification_supplied {C : Type} {P : Committer C} {domain : EvaluationDomain} {c : List UInt8} {i : ℕ}
    (h : P.commitBytes (A.ifft domain (e.evals.row i)) = .ok c) (keep : ℕ → Bool) :
    rowIndexCommitmentVerification A P domain c (if keep i then rowBytes A (e.evals.row i) else none) i =
      .ok (if keep i then some i else none) := by
  split_ifs with hkeep
  · obtain ⟨bytes, hbytes, hscalars⟩ := tryIntoScalars_rowBytes A (e.evals.row i)
    rw [hbytes, verification_iff_commit hscalars]
    exact h
  · rfl

/-- The rows that are supplied, with their commitments and indices, as far as they are asked for. -/
theorem filter_zip_supplied {commitments : List (List UInt8)} (hcount : commitments.length = e.dims.height)
    (keep : ℕ → Bool) {v : List ℕ} (hsorted : v.Pairwise (· < ·)) (hlt : ∀ i ∈ v, i < e.dims.height) :
    (commitments.zip (e.supplied A keep)).zipIdx.filter (fun x => v.contains x.2) =
      v.map fun i => ((commitments.getD i [], if keep i then rowBytes A (e.evals.row i) else none), i) := by
  have hzip : (commitments.zip (e.supplied A keep)).zipIdx = (List.range e.dims.height).map fun i =>
      ((commitments.getD i [], if keep i then rowBytes A (e.evals.row i) else none), i) := by
    refine List.ext_getElem (by simp [length_supplied, hcount]) fun i hi hi' => ?_
    have hi'' : i < commitments.length := by simpa [hcount] using hi'
    simp [EvaluationGrid.supplied, hi'']
  have hasked : (List.range e.dims.height).filter (fun i => v.contains i) = v := by
    refine (List.pairwise_lt_range.filter _).eq_of_mem_iff hsorted fun i => ?_
    rw [List.mem_filter, List.mem_range, List.contains_iff_mem]
    exact ⟨fun hi => hi.2, fun hi => ⟨hlt i hi, hi⟩⟩
  rw [hzip, List.filter_map]
  exact congrArg _ hasked

/-- **Of the rows it asks for, a light client verifies those that are supplied, and misses the others.** -/
theorem verifyEquality_supplied {C : Type} {b : Build} {P : Committer C} {commitments : List (List UInt8)}
    (hcommitments : e.commitmentsBytes A P = .ok commitments) {lookup : DataLookup} {dimensions : Dimensions}
    (hheight : e.dims.height = dimensions.extendedRows) (hwidth : e.dims.width = dimensions.width) {id : AppId}
    {v : List ℕ} (hv : (appSpecificRows b lookup dimensions id : Run CommitmentsError _) = .ok v)
    (hsorted : v.Pairwise (· < ·)) (hlt : ∀ i ∈ v, i < e.dims.height) (keep : ℕ → Bool) :
    verifyEquality b A P commitments (e.supplied A keep) lookup dimensions id =
      .ok (v.filter keep, v.filter fun i => !keep i) := by
  obtain ⟨domain, hdomain, hall⟩ := commitmentsBytes_eq_ok hcommitments
  have hcount : commitments.length = e.dims.height := by rw [← hall.length_eq, List.length_range]
  have hresults : (v.map fun i => ((commitments.getD i [], if keep i then rowBytes A (e.evals.row i) else none), i)).mapM
      (fun x => rowIndexCommitmentVerification A P domain x.1.1 x.1.2 x.2) =
        .ok (v.map fun i => if keep i then some i else none) := by
    rw [Except.mapM_ok_iff, List.forall₂_map_left_iff, List.forall₂_map_right_iff, List.forall₂_same]
    intro i hi
    have hi' : i < commitments.length := hcount ▸ hlt i hi
    have hcommit := hall.get (by simpa using hlt i hi) hi'
    rw [List.get_eq_getElem, List.get_eq_getElem, List.getElem_range] at hcommit
    rw [List.getD_eq_getElem _ _ hi']
    exact verification_supplied hcommit keep
  have hverified : (v.map fun i => if keep i then some i else none).reduceOption = v.filter keep := by
    rw [List.reduceOption, List.filterMap_map, ← List.filterMap_eq_filter]
    rfl
  have hmissing : (v.filter fun i => !keep i) = v.filter fun i => !(v.filter keep).contains i := by
    refine List.filter_congr fun i hi => ?_
    simp [hi]
  rw [verifyEquality_eq_ok_iff, hcount, length_supplied]
  refine ⟨hheight, v, hv, hmissing, Or.inr ⟨hheight, domain, _, hwidth ▸ hdomain, ?_, hverified.symm⟩⟩
  rw [filter_zip_supplied hcount keep hsorted hlt]
  exact hresults

end Supplied

/-! ### Producers and verifier -/

/-- The applications of a grid made from extrinsics have cells of its data. -/
theorem EvaluationGrid.Carries.inData {A : Ark} {K : Codec AppData} {g : EvaluationGrid}
    {held : List ((AppId × AppData) × List (List UInt8))} {filler : List (List UInt8)} (h : g.Carries A K held filler)
    {id : AppId} {range : DataLookupRange} (hid : g.lookup.rangeOf id = some range) : InData g.dims range := by
  obtain ⟨hnonempty, hend⟩ := h.of_mem_index (DataLookup.mem_of_rangeOf hid)
  exact ⟨hnonempty, hend⟩

/-- The original dimensions divide the extended ones. -/
theorem divides_of_extended {d d' : Dimensions} (hheight : d'.height = d.height * extensionFactor)
    (hwidth : d'.width = d.width) : d.divides d' = true := by
  have hrows : d'.rows.val % d.rows.val = 0 := by
    rw [show d'.rows.val = d.rows.val * extensionFactor from hheight, Nat.mul_mod_right]
  have hcols : d'.cols.val % d.cols.val = 0 := by
    rw [show d'.cols.val = d.cols.val from hwidth, Nat.mod_self]
  simp [Dimensions.divides, hrows, hcols]

/-- The rows of the extension, from the range of cells in the data. -/
theorem appRows_eq {b : Build} {g e : EvaluationGrid} (hlookup : e.lookup = g.lookup)
    (hheight : e.dims.height = g.dims.height * extensionFactor) (hwidth : e.dims.width = g.dims.width) {id : AppId}
    {range : DataLookupRange} (hid : g.lookup.rangeOf id = some range) (h : InData g.dims range) :
    e.appRows b id (some g.dims) = .ok (some ((rangeRows g.dims range).map fun y => (y, e.evals.row y))) := by
  have hdivides := divides_of_extended hheight hwidth
  have hlast : saturatingSub32 range.end_ 1 = range.end_ - 1 := if_pos h.one_le
  have hle : g.dims.height ≤ e.dims.height := hheight ▸ Nat.le_mul_of_pos_right _ (by decide)
  have hstartY := (h.div_lt h.start_lt).trans_le hle
  have hendY := (h.div_lt h.last_lt).trans_le hle
  have hmul : e.dims.height / g.dims.height = extensionFactor := by
    rw [hheight, Nat.mul_div_cancel_left _ g.dims.height_pos]
  have hrows : (rangeRows g.dims range).mapM (fun y => (e.row y).map fun a => (y, a)) =
      some ((rangeRows g.dims range).map fun y => (y, e.evals.row y)) := by
    refine Option.mapM_eq_map fun y hy => ?_
    rw [EvaluationGrid.row, if_pos (hheight ▸ h.lt_of_mem_rangeRows hy), Option.map_some]
  simp only [EvaluationGrid.appRows, EvaluationGrid.origDims, hdivides, Run.ensure_true, Except.ok_bind, hlookup, hid,
    Run.okOr_some, rowFromLinealIndex, hlast, h.toNat_last, hmul, Except.pure_eq_ok, Run.assert, hstartY, hendY, or_true,
    decide_true, if_true]
  exact congrArg Except.ok hrows

/-- **What the producers supply, the verifier asks for.** With the rows of an application, from either of
them, every row is verified; without one of them, that one is missing, and the others are verified. -/
theorem verifyEquality_appRows {C : Type} {b : Build} {A : Ark} {K : Codec AppData} {P : Committer C} {rng : Rng}
    {extrinsics : List AppExtrinsic} {minWidth maxWidth maxHeight : ℕ} {rngSeed : Seed} {g e : EvaluationGrid}
    (hg : EvaluationGrid.fromExtrinsics A K rng extrinsics minWidth maxWidth maxHeight rngSeed = .ok g)
    (he : g.extendColumns A ⟨extensionFactor, by decide⟩ = .ok e) {commitments : List (List UInt8)}
    (hcommitments : e.commitmentsBytes A P = .ok commitments) {id : AppId} {range : DataLookupRange}
    (hid : g.lookup.rangeOf id = some range) :
    ∃ v appRows rows,
      (appSpecificRows b g.lookup g.dims id : Run CommitmentsError _) = .ok v ∧
      e.appRows b id (some g.dims) = .ok (some appRows) ∧
      (fillRows A e.dims.height appRows : Run KateError _) = .ok rows ∧
      (scalarsToAppRows b A id g.lookup g.dims e.evals : Run KateError _) = .ok rows ∧
      verifyEquality b A P commitments rows g.lookup g.dims id = .ok (v, []) ∧
      ∀ i ∈ v, verifyEquality b A P commitments (rows.set i none) g.lookup g.dims id =
        .ok (v.filter (fun j => j != i), [i]) := by
  obtain ⟨-, hcarries⟩ := EvaluationGrid.carries_of_fromExtrinsics hg
  obtain ⟨hlookup, hheight, hwidth, -⟩ := EvaluationGrid.extendColumns_eq_ok he
  have h := hcarries.inData hid
  have hlt : ∀ i ∈ rangeRows g.dims range, i < e.dims.height := fun i hi => hheight ▸ h.lt_of_mem_rangeRows hi
  have hverify := verifyEquality_supplied hcommitments hheight hwidth (h.appSpecificRows_eq b hid)
    InData.rangeRows_sorted hlt
  refine ⟨_, _, _, h.appSpecificRows_eq b hid, appRows_eq hlookup hheight hwidth hid h, fillRows_eq hlt,
    scalarsToAppRows_eq (h.appSpecificRows_eq b hid) hheight, ?_, ?_⟩
  · rw [hverify, Except.ok.injEq, Prod.mk.injEq]
    constructor
    · exact List.filter_eq_self.mpr fun i hi => List.contains_iff_mem.mpr hi
    · exact List.filter_eq_nil_iff.mpr fun i hi => by simp [hi]
  · intro i hi
    rw [set_supplied_none, hverify, Except.ok.injEq, Prod.mk.injEq]
    constructor
    · refine List.filter_congr fun j hj => ?_
      simp [hj]
    · have hothers : ((rangeRows g.dims range).filter fun j => !(j != i && (rangeRows g.dims range).contains j)) =
          (rangeRows g.dims range).filter fun j => j == i := by
        refine List.filter_congr fun j hj => ?_
        simp [hj, bne]
      have hcount : (rangeRows g.dims range).count i = 1 :=
        List.count_eq_one_of_mem (InData.rangeRows_sorted.imp Nat.ne_of_lt) hi
      rw [hothers, List.filter_beq, hcount]
      rfl

/-- The commitments to the extension of two applications. -/
def twoAppsCommitments : List (List UInt8) := twoAppsPolynomials.inner.map fun poly =>
  ((bls12381.toBytes (horner ((5 : ℕ) : ArkScalar) poly)).get (bls12381.toBytes_isSome _)).val ++ List.replicate 16 0

theorem commitmentsBytes_twoApps :
    twoAppsExtended.commitmentsBytes bls12381 (Committer.atPoint 5) = .ok twoAppsCommitments := by
  have hbytes : (twoAppsPolynomials.inner.map (horner 5)).mapM (fun c =>
      (Run.unwrap ((Committer.atPoint 5).toBytes c) : Run KateError _)) = .ok twoAppsCommitments := by
    rw [Except.mapM_ok_iff, List.forall₂_map_left_iff, twoAppsCommitments, List.forall₂_map_right_iff,
      List.forall₂_same]
    exact fun _ _ => rfl
  rw [EvaluationGrid.commitmentsBytes, makePolynomialGrid_twoApps, Except.ok_bind,
    twoAppsPolynomials.commitments_atPoint, Except.ok_bind, hbytes]

/-- The rows of the application with more than one chunk. -/
theorem verifyEquality_appRows_two :
    ∃ appRows rows,
      (appSpecificRows .checked twoAppsGrid.lookup twoAppsGrid.dims ⟨2⟩ : Run CommitmentsError _) = .ok [0, 2] ∧
      twoAppsExtended.appRows .checked ⟨2⟩ (some twoAppsGrid.dims) = .ok (some appRows) ∧
      (fillRows bls12381 4 appRows : Run KateError _) = .ok rows ∧
      (scalarsToAppRows .checked bls12381 ⟨2⟩ twoAppsGrid.lookup twoAppsGrid.dims twoAppsExtended.evals :
        Run KateError _) = .ok rows ∧
      verifyEquality .checked bls12381 (Committer.atPoint 5) twoAppsCommitments rows twoAppsGrid.lookup
        twoAppsGrid.dims ⟨2⟩ = .ok ([0, 2], []) ∧
      verifyEquality .checked bls12381 (Committer.atPoint 5) twoAppsCommitments (rows.set 0 none) twoAppsGrid.lookup
        twoAppsGrid.dims ⟨2⟩ = .ok ([2], [0]) := by
  have hrange : twoAppsGrid.lookup.rangeOf ⟨2⟩ = some ⟨1, 5⟩ := by decide
  obtain ⟨v, appRows, rows, hv, happRows, hfill, hscalars, hverify, hmissing⟩ := @verifyEquality_appRows _ .checked _ _
    _ _ _ _ _ _ _ _ _ (fromExtrinsics_twoApps (List.Vector.replicate 32 0)) extendColumns_twoApps _
    commitmentsBytes_twoApps _ _ hrange
  obtain rfl : [0, 2] = v := Except.ok.inj hv
  exact ⟨appRows, rows, hv, happRows, hfill, hscalars, hverify, hmissing 0 (by decide)⟩

/-- The rows asked for are data rows of the extension. -/
theorem InData.even_of_mem_rangeRows {d : Dimensions} {range : DataLookupRange} {y : ℕ} (hy : y ∈ rangeRows d range) :
    ∃ i, y = extensionFactor * i := by
  obtain ⟨i, -, -, rfl⟩ := Dimensions.mem_stepRows.mp hy
  exact ⟨i, Nat.mul_comm ..⟩

/-- **The rows of an application are those of the data**, and they are the ones that a light client asks for. -/
theorem appRows_extended {b : Build} {A : Ark} {K : Codec AppData} {rng : Rng} {extrinsics : List AppExtrinsic}
    {minWidth maxWidth maxHeight : ℕ} {rngSeed : Seed} {g e : EvaluationGrid}
    (hg : EvaluationGrid.fromExtrinsics A K rng extrinsics minWidth maxWidth maxHeight rngSeed = .ok g)
    (he : g.extendColumns A ⟨extensionFactor, by decide⟩ = .ok e) (id : AppId) :
    (id ∈ extrinsics.map AppExtrinsic.appId → ∃ rows v,
      (appSpecificRows b g.lookup g.dims id : Run CommitmentsError _) = .ok rows ∧
      e.appRows b id (some g.dims) = .ok (some v) ∧ v.map Prod.fst = rows ∧
      ∀ p ∈ v, ∃ i, p.1 = 2 * i ∧ g.row i = some p.2) ∧
    (id ∉ extrinsics.map AppExtrinsic.appId → e.appRows b id (some g.dims) = Run.fail (.idNotFound id)) := by
  obtain ⟨-, hcarries⟩ := EvaluationGrid.carries_of_fromExtrinsics hg
  obtain ⟨hlookup, hheight, hwidth, -⟩ := EvaluationGrid.extendColumns_eq_ok he
  rw [← EvaluationGrid.mem_ids_iff hg]
  constructor
  · intro hpresent
    obtain ⟨range, hid⟩ := Option.ne_none_iff_exists'.mp (mt DataLookup.rangeOf_eq_none.mp (not_not.mpr hpresent))
    have h := hcarries.inData hid
    refine ⟨_, _, h.appSpecificRows_eq b hid, appRows_eq hlookup hheight hwidth hid h, ?_, ?_⟩
    · rw [List.map_map]
      exact List.map_id _
    · intro p hp
      obtain ⟨y, hy, rfl⟩ := List.mem_map.mp hp
      obtain ⟨i, rfl⟩ := InData.even_of_mem_rangeRows hy
      refine ⟨i, rfl, ?_⟩
      rw [← EvaluationGrid.row_extendColumns he, EvaluationGrid.row, if_pos (hheight ▸ h.lt_of_mem_rangeRows hy)]
  · intro habsent
    have hnone : e.lookup.rangeOf id = none := hlookup ▸ DataLookup.rangeOf_eq_none.mpr habsent
    rw [EvaluationGrid.appRows, EvaluationGrid.origDims, divides_of_extended hheight hwidth, Run.ensure_true,
      Except.ok_bind, hnone]
    rfl

theorem appRows_extended_two :
    (∃ v, (appSpecificRows .checked twoAppsGrid.lookup twoAppsGrid.dims ⟨2⟩ : Run CommitmentsError _) = .ok [0, 2] ∧
      twoAppsExtended.appRows .checked ⟨2⟩ (some twoAppsGrid.dims) = .ok (some v) ∧ v.map Prod.fst = [0, 2] ∧
      ∀ p ∈ v, ∃ i, p.1 = 2 * i ∧ twoAppsGrid.row i = some p.2) ∧
    twoAppsExtended.appRows .checked ⟨3⟩ (some twoAppsGrid.dims) = Run.fail (.idNotFound ⟨3⟩) := by
  have hg := fromExtrinsics_twoApps (List.Vector.replicate 32 0)
  obtain ⟨rows, v, hrows, hv, hfst, hdata⟩ := (@appRows_extended .checked _ _ _ _ _ _ _ _ _ _ hg extendColumns_twoApps
    ⟨2⟩).1 (by decide)
  obtain rfl : [0, 2] = rows := Except.ok.inj hrows
  exact ⟨⟨v, hrows, hv, hfst, hdata⟩, (appRows_extended hg extendColumns_twoApps ⟨3⟩).2 (by decide)⟩

end AvailCore
