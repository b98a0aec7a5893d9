import AvailCore.Foundation.ErasureCode
import AvailCore.Foundation.Run
import AvailCore.Recovery.Matrix

/-!
# Reconstruction of a column

`reconstruct_column` of `kate/recovery/src/com.rs` and what it calls: from at least half
the cells of an extended column, the scalars of the data. The extended column holds the
values, on the domain of twice the size, of the polynomial that takes the scalars as
values on the small domain; the missing values are found by way of the polynomial that
vanishes at them.

## The model

A loop over the indices of a vector is a traversal of it, and an index out of bounds a
panic. `expand_root_of_unity` loops until a power of the generator is 1, for as many
turns as the domain has points; `zero_poly_fn` multiplies in place, entry by entry,
from the last down. What the standard library leaves open is in `Runtime`: how much
more than requested a vector can hold, and in which order a hash map is traversed.

## What is proved

One lemma for each function, in terms of the polynomials its lists stand for:
`expandRootOfUnity_eq`, `zeroPolyFn_eq` (the product of the missing powers' linear
factors), `reconstructPoly_eq`. From these, `reconstructColumn_extended`: any half of
an extended column, in any order, gives the column back.
-/

namespace AvailCore

open Polynomial AvailCore.Fourier ErasureCode

/-- `UnflattenError` -/
inductive UnflattenError where
  /-- `AppDataRange` cannot be converted into `Range<usize>`. -/
  | rangeConversion
  /-- `AppData` cannot be decoded. -/
  | codec
  /-- Invalid data size, it needs to be a multiple of `CHUNK_SIZE`. -/
  | invalidLen
  deriving DecidableEq, Repr

/-- `ReconstructionError` -/
inductive ReconstructionError where
  | missingCell (position : Position)
  | invalidCell (position : Position)
  | maxCells (n : ℕ)
  | minCells (n : ℕ)
  | duplicateCellFound
  /-- The column contains less than half rows. -/
  | invalidColumn (col : ℕ)
  | dataDecodingError (e : UnflattenError)
  | rowCountExceeded
  /-- Rows must be power of two. -/
  | invalidRowCount
  | missingId (id : AppId)
  | dataLookup (e : DataLookupError)
  | cellsFromDifferentCols
  | invalidEvaluationDomain
  | badZeroPoly
  deriving DecidableEq, Repr

/-- What the standard library leaves open. -/
structure Runtime where
  /-- The capacity of a vector made with a requested capacity, when it holds `len` items. -/
  capacity : (requested len : ℕ) → ℕ
  /-- The cells of a column's hash map, as `values()` gives them. -/
  values : (col : ℕ) → List DataCell → List DataCell
  le_capacity : ∀ requested len, max requested len ≤ capacity requested len
  values_perm : ∀ col cells, (values col cells).Perm cells

/-- Vectors as large as requested, hash maps in the order of insertion. -/
def Runtime.plain : Runtime where
  capacity := max
  values _ cells := cells
  le_capacity _ _ := le_rfl
  values_perm _ _ := .refl _

/-! ### The powers of the generator -/

/-- The roots pushed while the last one is not 1. -/
def expandLoop (rootOfUnity : ArkScalar) : ℕ → ArkScalar → Run ReconstructionError (List ArkScalar)
  | 0, last => if last = 1 then return [] else .error .diverge
  | turns + 1, last =>
    if last = 1 then return []
    else do
      let rest ← expandLoop rootOfUnity turns (last * rootOfUnity)
      return last * rootOfUnity :: rest

/-- `expand_root_of_unity` -/
def expandRootOfUnity (d : EvaluationDomain) : Run ReconstructionError (List ArkScalar) := do
  let rest ← expandLoop d.groupGen d.size d.groupGen
  return 1 :: d.groupGen :: rest

/-- With turns enough to reach the power `n`, the loop pushes the powers up to it. -/
theorem expandLoop_eq {w : ArkScalar} {n : ℕ} (hw : IsPrimitiveRoot w n) {turns i : ℕ} (hi : 0 < i)
    (hin : i ≤ n) (hturns : n - i ≤ turns) :
    expandLoop w turns (w ^ i) = .ok ((List.range' (i + 1) (n - i)).map fun j => w ^ j) := by
  induction turns generalizing i with
  | zero =>
    obtain rfl : i = n := by omega
    rw [expandLoop, if_pos hw.pow_eq_one, Nat.sub_self]
    rfl
  | succ turns ih =>
    by_cases heq : i = n
    · subst heq
      rw [expandLoop, if_pos hw.pow_eq_one, Nat.sub_self]
      rfl
    · have hne : w ^ i ≠ 1 := hw.pow_ne_one_of_pos_of_lt hi.ne' (by omega)
      have hrest := ih (Nat.succ_pos i) (by omega) (by omega)
      rw [expandLoop, if_neg hne, ← pow_succ, hrest, Except.ok_bind, show n - i = n - (i + 1) + 1 by omega,
        List.range'_succ, List.map_cons]
      rfl

/-- **The loop ends, with all powers of the generator up to the one that is 1 again.** -/
theorem expandRootOfUnity_eq {d : EvaluationDomain} (hw : IsPrimitiveRoot d.groupGen d.size)
    (hd : 0 < d.size) :
    expandRootOfUnity d = .ok ((List.range (d.size + 1)).map fun j => d.groupGen ^ j) := by
  have hloop := expandLoop_eq hw Nat.one_pos hd (Nat.sub_le d.size 1)
  rw [pow_one] at hloop
  rw [expandRootOfUnity, hloop, Except.ok_bind, List.range_eq_range',
    show d.size + 1 = d.size - 1 + 1 + 1 by omega, List.range'_succ, List.range'_succ]
  simp

/-! ### The polynomial of the missing cells -/

/-- The inner loop, from `j` down to 1: `zero_poly[j] *= sub`, then add `zero_poly[j - 1]`. -/
def mulLoop (sub : ArkScalar) : ℕ → List ArkScalar → List ArkScalar
  | 0, poly => poly
  | j + 1, poly => mulLoop sub j (poly.set (j + 1) (poly.getD (j + 1) 0 * sub + poly.getD j 0))

/-- The turn of the outer loop for index `i`, the length of the vector before the turn. -/
def pushRoot (poly : List ArkScalar) (sub : ArkScalar) : List ArkScalar :=
  let pushed := poly ++ [sub]
  if 0 < poly.length then
    let added := pushed.set poly.length (pushed.getD poly.length 0 + pushed.getD (poly.length - 1) 0)
    let multiplied := mulLoop sub (poly.length - 1) added
    multiplied.set 0 (multiplied.getD 0 0 * sub)
  else pushed

/-- `zero_poly_fn` -/
def zeroPolyFn (A : Ark) (R : Runtime) (d : EvaluationDomain) (missingIndices : List ℕ) (length : ℕ) :
    Run ReconstructionError (List ArkScalar × List ArkScalar) := do
  let expandedROU ← expandRootOfUnity d
  let domainStride ← Run.div d.size length
  let zeroPoly ← missingIndices.foldlM (fun zeroPoly v => do
    let root ← Run.index expandedROU (v * domainStride)
    return pushRoot zeroPoly (0 - root)) []
  let zeroPoly := zeroPoly ++ [1]
  let zeroPoly := zeroPoly ++ List.replicate (R.capacity length zeroPoly.length - zeroPoly.length) 0
  return (zeroPoly, A.fft d zeroPoly)

@[simp] theorem length_mulLoop (sub : ArkScalar) (j : ℕ) (poly : List ArkScalar) :
    (mulLoop sub j poly).length = poly.length := by
  induction j generalizing poly with
  | zero => rfl
  | succ j ih => rw [mulLoop, ih, List.length_set]

@[simp] theorem length_pushRoot (poly : List ArkScalar) (sub : ArkScalar) :
    (pushRoot poly sub).length = poly.length + 1 := by
  dsimp only [pushRoot]
  split_ifs <;> simp

theorem getD_set {xs : List ArkScalar} {i : ℕ} (hi : i < xs.length) (a : ArkScalar) (t : ℕ) :
    (xs.set i a).getD t 0 = if t = i then a else xs.getD t 0 := by
  rw [List.getD_eq_getElem?_getD, List.getD_eq_getElem?_getD, List.getElem?_set]
  by_cases h : i = t
  · subst h
    simp [hi]
  · rw [if_neg h, if_neg (Ne.symm h)]

/-- The inner loop multiplies the entries it passes, and adds to each the one below it. -/
theorem getD_mulLoop {sub : ArkScalar} {j : ℕ} {poly : List ArkScalar} (hj : j < poly.length) (t : ℕ) :
    (mulLoop sub j poly).getD t 0 =
      if 0 < t ∧ t ≤ j then poly.getD t 0 * sub + poly.getD (t - 1) 0 else poly.getD t 0 := by
  induction j generalizing poly with
  | zero => rw [mulLoop, if_neg (by omega)]
  | succ j ih =>
    rw [mulLoop, ih (by rw [List.length_set]; omega), getD_set hj, getD_set hj]
    by_cases ht : t = j + 1
    · subst ht
      simp
    · rw [if_neg ht]
      by_cases hle : 0 < t ∧ t ≤ j
      · rw [if_pos hle, if_neg (show t - 1 ≠ j + 1 by omega), if_pos (by omega)]
      · rw [if_neg hle, if_neg (by omega)]

/-- A turn multiplies by a linear factor, the leading 1 being left out. -/
theorem getD_pushRoot (poly : List ArkScalar) (sub : ArkScalar) (t : ℕ) :
    (pushRoot poly sub).getD t 0 =
      (if t = 0 then 0 else poly.getD (t - 1) 0) + poly.getD t 0 * sub +
        (if t = poly.length then sub else 0) := by
  have hpushed := getD_concat poly sub
  dsimp only [pushRoot]
  split_ifs with hpos ht hlen hlen
  · -- the constant term
    subst ht
    omega
  · subst ht
    rw [getD_set (by simp), if_pos rfl, getD_mulLoop (by simp), if_neg (by omega),
      getD_set (by simp), if_neg hlen, hpushed, if_neg hlen]
    ring
  · -- the entry pushed in this turn
    rw [getD_set (by simp), if_neg ht, getD_mulLoop (by simp), if_neg (by omega), getD_set (by simp),
      if_pos hlen, hpushed, hpushed, if_pos rfl, if_neg (by omega), hlen, List.getD_eq_default poly _ le_rfl]
    ring
  · -- the entries between, and those that are not there
    rw [getD_set (by simp), if_neg ht, getD_mulLoop (by simp)]
    by_cases hle : t ≤ poly.length - 1
    · rw [if_pos ⟨by omega, hle⟩, getD_set (by simp), if_neg hlen, getD_set (by simp), if_neg (by omega),
        hpushed, if_neg hlen, hpushed, if_neg (by omega)]
      ring
    · rw [if_neg (by omega), getD_set (by simp), if_neg hlen, hpushed, if_neg hlen,
        List.getD_eq_default poly _ (show poly.length ≤ t by omega),
        List.getD_eq_default poly _ (show poly.length ≤ t - 1 by omega)]
      ring
  all_goals
    obtain rfl : poly = [] := List.eq_nil_of_length_eq_zero (by omega)
    rw [hpushed]
    simp_all

/-- **A turn of the outer loop multiplies by `X + sub`**, the leading 1 being left out. -/
theorem toPoly_pushRoot (poly : List ArkScalar) (sub : ArkScalar) :
    toPoly (pushRoot poly sub) + X ^ (poly.length + 1) = (toPoly poly + X ^ poly.length) * (X + C sub) := by
  have hturn : toPoly (pushRoot poly sub) = X * toPoly poly + toPoly poly * C sub + C sub * X ^ poly.length := by
    rw [toPoly_eq_iff]
    intro t
    rw [getD_pushRoot, coeff_add, coeff_add, coeff_mul_C, coeff_C_mul, coeff_X_pow, coeff_toPoly]
    cases t with
    | zero => simp
    | succ t => simp [coeff_X_mul]
  rw [hturn]
  ring

/-- The outer loop, on powers that are there. -/
theorem foldlM_pushRoot {w : ArkScalar} {n : ℕ} {missing : List ℕ} (h : ∀ v ∈ missing, v ≤ n) :
    ∃ poly : List ArkScalar, poly.length = missing.length ∧
      toPoly poly + X ^ poly.length = vanishing w missing ∧
      (missing.foldlM (fun zeroPoly v => do
        let root ← Run.index ((List.range (n + 1)).map fun j => w ^ j) (v * 1)
        return pushRoot zeroPoly (0 - root)) [] : Run ReconstructionError (List ArkScalar)) = .ok poly := by
  induction missing using List.reverseRecOn with
  | nil => exact ⟨[], rfl, by simp [toPoly], rfl⟩
  | append_singleton missing v ih =>
    obtain ⟨poly, hlen, hpoly, hrun⟩ := ih fun u hu => h u (List.mem_append_left _ hu)
    have hroot : ((List.range (n + 1)).map fun j => w ^ j)[v * 1]? = some (w ^ v) := by
      have hv := h v (by simp)
      rw [List.getElem?_map, List.getElem?_range (by omega), mul_one]
      rfl
    refine ⟨pushRoot poly (0 - w ^ v), by simp [hlen], ?_, ?_⟩
    · rw [length_pushRoot, toPoly_pushRoot, hpoly, vanishing_concat, zero_sub, C_neg, sub_eq_add_neg]
    · rw [List.foldlM_append, hrun, Except.ok_bind, List.foldlM_cons, Run.index_eq_ok.mpr hroot,
        Except.ok_bind]
      rfl

/-- The coefficients below the leading one, that one, and spare capacity. -/
theorem toPoly_zeroPoly (poly : List ArkScalar) (m : ℕ) :
    toPoly (poly ++ [1] ++ List.replicate m 0) = toPoly poly + X ^ poly.length := by
  rw [toPoly_append_zeros, toPoly_concat, C_1, one_mul]

/-- What `zero_poly_fn` returns when the stride is 1: the coefficients below the leading one, that one, and
zeros in the spare capacity. -/
theorem exists_zeroPolyFn (A : Ark) (R : Runtime) {d : EvaluationDomain} (hw : IsPrimitiveRoot d.groupGen d.size)
    {length : ℕ} (hstride : d.size / length = 1) {missing : List ℕ} (h : ∀ v ∈ missing, v < d.size) :
    ∃ (poly : List ArkScalar) (m : ℕ), poly.length = missing.length ∧
      length ≤ (poly ++ [1] ++ List.replicate m 0).length ∧
      toPoly poly + X ^ poly.length = vanishing d.groupGen missing ∧
      zeroPolyFn A R d missing length =
        .ok (poly ++ [1] ++ List.replicate m 0, A.fft d (poly ++ [1] ++ List.replicate m 0)) := by
  have hlength : length ≠ 0 := by
    rintro rfl
    rw [Nat.div_zero] at hstride
    exact zero_ne_one hstride
  have hd : 0 < d.size := Nat.pos_of_ne_zero fun h0 => by
    rw [h0, Nat.zero_div] at hstride
    exact zero_ne_one hstride
  obtain ⟨poly, hlen, hpoly, hrun⟩ := @foldlM_pushRoot d.groupGen d.size missing fun v hv => (h v hv).le
  have hcapacity := R.le_capacity length (poly ++ [1]).length
  refine ⟨poly, R.capacity length (poly ++ [1]).length - (poly ++ [1]).length, hlen, ?_, hpoly, ?_⟩
  · rw [List.length_append, List.length_replicate]
    omega
  simp only [zeroPolyFn, expandRootOfUnity_eq hw hd, Except.ok_bind, Run.div_eq_ok hlength, hstride, hrun]
  rfl

/-- **`zero_poly_fn` returns the polynomial that vanishes at the missing powers**, and its values. -/
theorem zeroPolyFn_eq (A : Ark) (R : Runtime) {d : EvaluationDomain} (hw : IsPrimitiveRoot d.groupGen d.size)
    (hd : 0 < d.size) {missing : List ℕ} (h : ∀ v ∈ missing, v < d.size) :
    ∃ zeroPoly, zeroPolyFn A R d missing d.size = .ok (zeroPoly, A.fft d zeroPoly) ∧
      toPoly zeroPoly = vanishing d.groupGen missing := by
  obtain ⟨poly, m, -, -, hpoly, hrun⟩ := exists_zeroPolyFn A R hw (Nat.div_self hd) h
  refine ⟨_, hrun, ?_⟩
  rw [toPoly_zeroPoly, hpoly]

/-- **What reconstruction works with**: all powers of the generator, and of the missing ones the
coefficients of their polynomial, filled up to the domain, and its values there. -/
theorem zeroPolyFn_vanishing (A : Ark) (R : Runtime) {n : ℕ} {d : EvaluationDomain} (hd : A.newDomain n = some d)
    {missing : List ℕ} (h : ∀ v ∈ missing, v < d.size) (hlen : missing.length < d.size) :
    expandRootOfUnity d = .ok ((List.range (d.size + 1)).map fun j => d.groupGen ^ j) ∧
    ∃ zeroPoly zeroEval, zeroPolyFn A R d missing d.size = .ok (zeroPoly, zeroEval) ∧
      d.size ≤ zeroPoly.length ∧
      (∀ i, zeroPoly.getD i 0 = ((missing.map fun v => X - C (d.groupGen ^ v)).prod).coeff i) ∧
      zeroEval.length = d.size ∧ ∀ i < d.size, zeroEval[i]? = some 0 ↔ i ∈ missing := by
  have T := A.isTransform hd
  have hpos : 0 < d.size := Nat.zero_lt_of_lt hlen
  obtain ⟨poly, m, -, hlong, hpoly, hrun⟩ := exists_zeroPolyFn A R T.primitive (Nat.div_self hpos) h
  have hzero : toPoly (poly ++ [1] ++ List.replicate m 0) = vanishing d.groupGen missing := by
    rw [toPoly_zeroPoly, hpoly]
  have hzeroEval := T.fft_eq_evals_of hzero (degree_vanishing_lt hlen)
  refine ⟨expandRootOfUnity_eq T.primitive hpos, _, _, hrun, hlong, fun i => ?_, T.length_fft _, fun i hi => ?_⟩
  · rw [← coeff_toPoly, hzero]
    rfl
  · rw [hzeroEval, getElem?_evals _ _ _ hi, Option.some.injEq]
    exact eval_vanishing_eq_zero_iff T.primitive h hi

/-- On two points, with the second one missing. -/
theorem zeroPolyFn_vanishing_two : ∃ zeroPoly zeroEval,
    zeroPolyFn bls12381 Runtime.plain ⟨2, ArkScalar.rootOfUnity 1⟩ [1] 2 = .ok (zeroPoly, zeroEval) ∧
      2 ≤ zeroPoly.length ∧
      (∀ i, zeroPoly.getD i 0 = ((([1] : List ℕ).map fun v => X - C (ArkScalar.rootOfUnity 1 ^ v)).prod).coeff i) ∧
      zeroEval.length = 2 ∧ ∀ i < 2, zeroEval[i]? = some 0 ↔ i ∈ [1] :=
  (zeroPolyFn_vanishing bls12381 Runtime.plain bls12381_newDomain_two (by decide) (by decide)).2

/-! ### The polynomial of the known cells -/

/-- `shift_poly`, with the factor that is the inverse of 5. -/
def shiftPoly (poly : List ArkScalar) : List ArkScalar := scale (5 : ArkScalar)⁻¹ 1 poly

/-- `unshift_poly` -/
def unshiftPoly (poly : List ArkScalar) : List ArkScalar := scale 5 1 poly

/-- The indices of the cells that are missing. -/
def missingIndices (subset : List (Option ArkScalar)) : List ℕ :=
  (subset.zipIdx.filter fun e => e.1.isNone).map Prod.snd

/-- The first loop of `reconstruct_poly`: the zero polynomial is 0 where the cell is missing. -/
def checkZeroEval (zeroEval : List ArkScalar) : Option ArkScalar × ℕ → Run ReconstructionError Unit
  | (some _, _) => return ()
  | (none, i) => do
    let zero ← Run.index zeroEval i
    Run.ensure (zero = 0) .badZeroPoly

/-- The second loop: the value times that of the zero polynomial, 0 where the cell is missing. -/
def mulZeroEval (zeroEval : List ArkScalar) : Option ArkScalar × ℕ → Run ReconstructionError ArkScalar
  | (some v, i) => do
    let zero ← Run.index zeroEval i
    return v * zero
  | (none, _) => return 0

/-- The third loop: the value divided by that of the zero polynomial. -/
def divZeroEval (zeroEval : List ArkScalar) (e : ArkScalar × ℕ) : Run ReconstructionError ArkScalar := do
  let zero ← Run.index zeroEval e.2
  Run.ensure (zero ≠ 0) .badZeroPoly
  return e.1 * zero⁻¹

/-- `reconstruct_poly` -/
def reconstructPoly (A : Ark) (R : Runtime) (d : EvaluationDomain) (subset : List (Option ArkScalar)) :
    Run ReconstructionError (List ArkScalar) := do
  let (zeroPoly, zeroEval) ← zeroPolyFn A R d (missingIndices subset) subset.length
  let _ ← subset.zipIdx.mapM (checkZeroEval zeroEval)
  let polyEvalsWithZero ← subset.zipIdx.mapM (mulZeroEval zeroEval)
  let polyWithZero := shiftPoly (A.ifft d polyEvalsWithZero)
  let evalShiftedZeroPoly := A.fft d (shiftPoly zeroPoly)
  let evalShiftedPoly ← (A.fft d polyWithZero).zipIdx.mapM (divZeroEval evalShiftedZeroPoly)
  let reconstructedPoly := unshiftPoly (A.ifft d evalShiftedPoly)
  let shortDomain ← Run.unwrap (A.newDomain (d.size / 2))
  return A.fft shortDomain reconstructedPoly

theorem toPoly_shiftPoly (poly : List ArkScalar) :
    toPoly (shiftPoly poly) = (toPoly poly).comp (C (5 : ArkScalar)⁻¹ * X) := toPoly_scale _ _

theorem toPoly_unshiftPoly (poly : List ArkScalar) :
    toPoly (unshiftPoly poly) = (toPoly poly).comp (C 5 * X) := toPoly_scale _ _

theorem zipIdx_map_range {α : Type} (f : ℕ → α) (n : ℕ) :
    ((List.range n).map f).zipIdx = (List.range n).map fun i => (f i, i) := by
  refine List.ext_getElem? fun i => ?_
  rw [List.getElem?_zipIdx, List.getElem?_map, List.getElem?_map]
  by_cases hi : i < n
  · simp [hi]
  · rw [List.getElem?_eq_none (by simpa using hi)]
    rfl

/-- A traversal of a vector with its indices, of calls that all return. -/
theorem mapM_zipIdx_range {α β : Type} {f : ℕ → α} {n : ℕ} {g : α × ℕ → Run ReconstructionError β} {h : ℕ → β}
    (hg : ∀ i < n, g (f i, i) = .ok (h i)) :
    (((List.range n).map f).zipIdx.mapM g) = .ok ((List.range n).map h) := by
  rw [zipIdx_map_range, Except.mapM_ok_iff, List.forall₂_map_left_iff, List.forall₂_map_right_iff,
    List.forall₂_same]
  exact fun i hi => hg i (List.mem_range.mp hi)

/-- The indices without a cell, of a vector that holds one at the known indices. -/
theorem missingIndices_known {f : ℕ → ArkScalar} {known : ℕ → Bool} {n : ℕ} :
    missingIndices ((List.range n).map fun i => if known i then some (f i) else none) =
      (List.range n).filter fun i => !known i := by
  rw [missingIndices, zipIdx_map_range, List.filter_map, List.map_map]
  have hid : (Prod.snd ∘ fun i => ((if known i then some (f i) else none : Option ArkScalar), i)) = id := rfl
  rw [hid, List.map_id]
  refine List.filter_congr fun i _ => ?_
  cases hi : known i <;> simp [Function.comp, hi]

/-- 5 is no root of unity of the order of a domain, and neither is its inverse. -/
theorem five_inv_pow_size_ne_one {A : Ark} {n : ℕ} {d : EvaluationDomain} (hd : A.newDomain n = some d) :
    (5 : ArkScalar)⁻¹ ^ d.size ≠ 1 := by
  rw [A.size_newDomain hd, nextPowerOfTwo, inv_pow]
  intro h
  exact ArkScalar.five_pow_ne_one _ (inv_eq_one.mp h)

/-- A shifted polynomial is evaluated on the shifted domain. -/
theorem fft_shiftPoly {w : ArkScalar} {n : ℕ} {fft ifft : List ArkScalar → List ArkScalar}
    (T : IsTransform w n fft ifft) {poly : List ArkScalar} {p : ArkScalar[X]} (hp : toPoly poly = p)
    (hdeg : p.degree < n) : fft (shiftPoly poly) = evals w n (p.comp (C (5 : ArkScalar)⁻¹ * X)) := by
  have hshift : toPoly (shiftPoly poly) = p.comp (C (5 : ArkScalar)⁻¹ * X) := by rw [toPoly_shiftPoly, hp]
  exact T.fft_eq_evals_of hshift (degree_comp_scale_lt hdeg _)

/-! ### The loops, on values of polynomials -/

section Loops

variable {w : ArkScalar} {n : ℕ} {known : ℕ → Bool} {D Z : ArkScalar[X]}

/-- The value of a polynomial at each known index. -/
def knownEvals (w : ArkScalar) (n : ℕ) (known : ℕ → Bool) (D : ArkScalar[X]) : List (Option ArkScalar) :=
  (List.range n).map fun i => if known i then some (D.eval (w ^ i)) else none

theorem index_evals (p : ArkScalar[X]) {i : ℕ} (hi : i < n) :
    (Run.index (evals w n p) i : Run ReconstructionError ArkScalar) = .ok (p.eval (w ^ i)) :=
  Run.index_eq_ok.mpr (getElem?_evals w n p hi)

/-- The check passes when the zero polynomial is 0 at the missing indices. -/
theorem mapM_checkZeroEval (hZ : ∀ i < n, known i = false → Z.eval (w ^ i) = 0) :
    (knownEvals w n known D).zipIdx.mapM (checkZeroEval (evals w n Z)) = .ok ((List.range n).map fun _ => ()) := by
  refine mapM_zipIdx_range fun i hi => ?_
  cases hk : known i with
  | true => rfl
  | false => simp [checkZeroEval, index_evals Z hi, hZ i hi hk]

/-- The product with the unknown polynomial is known everywhere. -/
theorem mapM_mulZeroEval (hZ : ∀ i < n, known i = false → Z.eval (w ^ i) = 0) :
    (knownEvals w n known D).zipIdx.mapM (mulZeroEval (evals w n Z)) = .ok (evals w n (D * Z)) := by
  refine mapM_zipIdx_range fun i hi => ?_
  cases hk : known i with
  | true => simp [mulZeroEval, index_evals Z hi]
  | false => simp [mulZeroEval, hZ i hi hk]

/-- Where the zero polynomial is not 0, the product is divided by it. -/
theorem mapM_divZeroEval {s : ArkScalar} (hZ : ∀ i < n, Z.eval (s * w ^ i) ≠ 0) :
    (evals w n ((D * Z).comp (C s * X))).zipIdx.mapM (divZeroEval (evals w n (Z.comp (C s * X)))) =
      .ok (evals w n (D.comp (C s * X))) := by
  refine mapM_zipIdx_range fun i hi => ?_
  have hne := hZ i hi
  rw [divZeroEval, index_evals _ hi, Except.ok_bind, eval_comp_scale, eval_comp_scale, eval_comp_scale,
    eval_mul]
  simp [hne]

end Loops

/-- **A polynomial of degree below `n` is reconstructed from `n` of its `2n` values**: the result is its
values on the domain of `n` points. -/
theorem reconstructPoly_eq (A : Ark) (R : Runtime) {d short : EvaluationDomain} {n m : ℕ}
    (hd : A.newDomain m = some d) (hsize : d.size = 2 * n) (hshort : A.newDomain n = some short)
    (hn : short.size = n) {D : ArkScalar[X]} (hD : D.degree < n) {known : ℕ → Bool}
    (hknown : ((List.range d.size).filter fun i => !known i).length ≤ n) :
    reconstructPoly A R d (knownEvals d.groupGen d.size known D) = .ok (evals short.groupGen n D) := by
  have T := A.isTransform hd
  have hpos : 0 < n := by
    rw [← hn, A.size_newDomain hshort]
    exact nextPowerOfTwo_pos n
  set missing := (List.range d.size).filter fun i => !known i with hmissing
  have hlt : ∀ v ∈ missing, v < d.size := fun v hv => List.mem_range.mp (List.mem_of_mem_filter hv)
  -- the polynomial that is 0 at the missing values
  obtain ⟨zeroPoly, hzeroPoly, hZ⟩ := zeroPolyFn_eq A R T.primitive (by omega) hlt
  set Z := vanishing d.groupGen missing with hZdef
  have hZdeg : Z.degree < d.size := degree_vanishing_lt (by omega)
  have hzeroEval : A.fft d zeroPoly = evals d.groupGen d.size Z := T.fft_eq_evals_of hZ hZdeg
  have hzero : ∀ i < d.size, known i = false → Z.eval (d.groupGen ^ i) = 0 := by
    intro i hi hk
    rw [hZdef, eval_vanishing_eq_zero_iff T.primitive hlt hi]
    simp [hmissing, hi, hk]
  -- the product, on the shifted domain and divided again
  have hDZ : (D * Z).degree < d.size := degree_mul_vanishing_lt hD (by omega)
  have hshifted := fft_shiftPoly T (T.toPoly_ifft_evals hDZ) hDZ
  have hshiftedZero := fft_shiftPoly T hZ hZdeg
  have hdiv := @mapM_divZeroEval d.groupGen d.size D Z _ fun i _ =>
    eval_vanishing_shift_ne_zero T.primitive.pow_eq_one (five_inv_pow_size_ne_one hd) missing i
  -- the polynomial itself, shifted back
  have hDdeg : D.degree < d.size := lt_of_lt_of_le hD (by exact_mod_cast (by omega : n ≤ d.size))
  have hunshifted : toPoly (unshiftPoly (A.ifft d (evals d.groupGen d.size (D.comp (C (5 : ArkScalar)⁻¹ * X))))) =
      D := by
    rw [toPoly_unshiftPoly, T.toPoly_ifft_evals (degree_comp_scale_lt hDdeg _),
      comp_scale_comp_scale (inv_mul_cancel₀ ArkScalar.five_ne_zero)]
  have hhalf : A.newDomain (d.size / 2) = some short := by
    rw [hsize, Nat.mul_div_cancel_left n two_pos, hshort]
  have hlength : (knownEvals d.groupGen d.size known D).length = d.size := by simp [knownEvals]
  have hindices : missingIndices (knownEvals d.groupGen d.size known D) = missing := missingIndices_known
  rw [reconstructPoly, hindices, hlength, hzeroPoly]
  simp only [Except.ok_bind, hzeroEval, mapM_checkZeroEval hzero, mapM_mulZeroEval hzero, hshifted,
    hshiftedZero, hdiv, hhalf, Run.unwrap_some, Except.pure_eq_ok]
  have Tshort := A.isTransform hshort
  rw [Tshort.fft_eq_evals_of hunshifted (by rw [hn]; exact hD), hn]

/-! ### The column -/

/-- All cells are from the column of the first one, and there is a first one. -/
def checkCells : List DataCell → Bool
  | [] => false
  | first :: cells => (first :: cells).all fun c => c.position.col = first.position.col

/-- The scalar of the first cell of row `idx`, if there is one and its bytes are a scalar's. -/
def findRowByIndex (A : Ark) (idx : ℕ) (cells : List DataCell) : Option ArkScalar :=
  (cells.find? fun cell => cell.position.row = idx).bind fun cell => A.fromBytes cell.data

/-- `reconstruct_column`, for a `u32` number of rows. -/
def reconstructColumn (A : Ark) (R : Runtime) (rowCount : ℕ) (cells : List DataCell) :
    Run ReconstructionError (List ArkScalar) := do
  Run.ensure (rowCount % 2 = 0) .invalidRowCount
  Run.ensure (rowCount / 2 ≤ cells.length) (.minCells (rowCount / 2))
  Run.ensure (cells.length ≤ rowCount) (.maxCells rowCount)
  Run.ensure (checkCells cells) .cellsFromDifferentCols
  let d ← Run.okOr .invalidEvaluationDomain (A.newDomain rowCount)
  let subset := (List.range rowCount).map fun i => findRowByIndex A i cells
  reconstructPoly A R d subset

/-- The cells are cells of the column with the given scalars, in distinct rows. -/
structure CellsOf (A : Ark) (scalars : List ArkScalar) (cells : List DataCell) : Prop where
  nodup : (cells.map fun c => c.position.row).Nodup
  sameCol : ∀ c ∈ cells, ∀ c' ∈ cells, c.position.col = c'.position.col
  value : ∀ c ∈ cells, ∃ s, scalars[c.position.row]? = some s ∧ A.toBytes s = some c.data

namespace CellsOf

variable {A : Ark} {scalars : List ArkScalar} {cells : List DataCell} (h : CellsOf A scalars cells)
include h

theorem row_lt {c : DataCell} (hc : c ∈ cells) : c.position.row < scalars.length := by
  obtain ⟨s, hs, -⟩ := h.value c hc
  exact (List.getElem?_eq_some_iff.mp hs).1

theorem checkCells_eq (hne : cells ≠ []) : checkCells cells = true := by
  obtain ⟨first, rest, rfl⟩ := List.exists_cons_of_ne_nil hne
  rw [checkCells, List.all_eq_true]
  intro c hc
  exact decide_eq_true (h.sameCol c hc first (List.mem_cons_self ..))

/-- Rows with and without a cell, together. -/
theorem length_missing_add_length :
    ((List.range scalars.length).filter fun i => !cells.any fun c => c.position.row = i).length + cells.length ≤
      scalars.length := by
  set missing := (List.range scalars.length).filter fun i => !cells.any fun c => c.position.row = i with hmissing
  have hnodup : (missing ++ cells.map fun c => c.position.row).Nodup := by
    apply List.Nodup.append (List.nodup_range.filter _) h.nodup
    intro i hi hrow
    obtain ⟨c, hc, rfl⟩ := List.mem_map.mp hrow
    have hnone := List.of_mem_filter hi
    simp only [Bool.not_eq_true', List.any_eq_false] at hnone
    exact hnone c hc (decide_eq_true rfl)
  have hsub : (missing ++ cells.map fun c => c.position.row) ⊆ List.range scalars.length := by
    intro i hi
    rcases List.mem_append.mp hi with hi | hi
    · exact List.mem_of_mem_filter hi
    · obtain ⟨c, hc, rfl⟩ := List.mem_map.mp hi
      exact List.mem_range.mpr (h.row_lt hc)
  have hlen := (hnodup.subperm hsub).length_le
  rwa [List.length_append, List.length_map, List.length_range] at hlen

/-- A row with a cell is found with its scalar. -/
theorem findRowByIndex_eq (i : ℕ) :
    findRowByIndex A i cells = if cells.any fun c => c.position.row = i then scalars[i]? else none := by
  unfold findRowByIndex
  cases hfind : cells.find? fun cell => cell.position.row = i with
  | none =>
    rw [List.find?_eq_none] at hfind
    rw [if_neg]
    · rfl
    · intro hany
      obtain ⟨c, hc, hrow⟩ := List.any_eq_true.mp hany
      exact hfind c hc hrow
  | some c =>
    have hc := List.mem_of_find?_eq_some hfind
    have hrow : c.position.row = i := by simpa using List.find?_some hfind
    obtain ⟨s, hs, hbytes⟩ := h.value c hc
    rw [if_pos (List.any_eq_true.mpr ⟨c, hc, decide_eq_true hrow⟩), ← hrow, hs, Option.bind_some,
      A.fromBytes_toBytes hbytes]

end CellsOf

/-- **From at least half its values, in cells of one column, a polynomial is known**: the result is its
values on the small domain. -/
theorem reconstructColumn_eq (A : Ark) (R : Runtime) {n : ℕ} {short d : EvaluationDomain}
    (hshort : A.newDomain n = some short) (hd : A.newDomain (2 * n) = some d) (hn : short.size = n)
    (hsize : d.size = 2 * n) {D : ArkScalar[X]} (hD : D.degree < n) {cells : List DataCell}
    (hcells : CellsOf A (evals d.groupGen d.size D) cells) (hcount : n ≤ cells.length) :
    reconstructColumn A R (2 * n) cells = .ok (evals short.groupGen n D) := by
  have hpos : 0 < n := by
    rw [← hn, A.size_newDomain hshort]
    exact nextPowerOfTwo_pos n
  have hmissing := hcells.length_missing_add_length
  rw [length_evals, hsize] at hmissing
  have hsubset : ((List.range (2 * n)).map fun i => findRowByIndex A i cells) =
      knownEvals d.groupGen d.size (fun i => cells.any fun c => c.position.row = i) D := by
    rw [knownEvals, hsize]
    refine List.map_congr_left fun i hi => ?_
    rw [hcells.findRowByIndex_eq, getElem?_evals _ _ _ (by rw [hsize]; exact List.mem_range.mp hi)]
  have hcheck := hcells.checkCells_eq (List.ne_nil_of_length_pos (by omega))
  have hpoly := @reconstructPoly_eq A R d short n _ hd hsize hshort hn D hD
    (fun i => cells.any fun c => c.position.row = i) (by rw [hsize]; omega)
  have hmin : 2 * n / 2 ≤ cells.length := by omega
  have hmax : cells.length ≤ 2 * n := by omega
  simp only [reconstructColumn, hd, hcheck, hsubset, hpoly, hmin, hmax, Nat.mul_mod_right, decide_true,
    Run.ensure_true, Run.okOr_some, Except.ok_bind]

/-- The two domains of a column of `2ᵏ` scalars and of its extension. -/
structure ColumnDomains (A : Ark) (k : ℕ) (short d : EvaluationDomain) : Prop where
  newShort : A.newDomain (2 ^ k) = some short
  newLong : A.newDomain (2 * 2 ^ k) = some d

namespace ColumnDomains

variable {A : Ark} {k : ℕ} {short d : EvaluationDomain} (hdom : ColumnDomains A k short d)
include hdom

theorem size_short : short.size = 2 ^ k := by
  rw [A.size_newDomain hdom.newShort, nextPowerOfTwo_two_pow]

theorem size_long : d.size = 2 * 2 ^ k := by
  rw [A.size_newDomain hdom.newLong, ← pow_succ', nextPowerOfTwo_two_pow]

theorem degree_ifft_lt (column : List ArkScalar) : (toPoly (A.ifft short column)).degree < (2 ^ k : ℕ) := by
  rw [← hdom.size_short]
  exact (A.isTransform hdom.newShort).degree_ifft_lt column

theorem size_long_eq : d.size = short.size * 2 := by
  rw [hdom.size_long, hdom.size_short, Nat.mul_comm]

/-- The extended column holds the values of the polynomial that takes the scalars as values. -/
theorem fft_ifft (column : List ArkScalar) :
    A.fft d (A.ifft short column) = evals d.groupGen d.size (toPoly (A.ifft short column)) := by
  apply A.fft_ifft_eq_evals hdom.newShort hdom.newLong
  exact hdom.size_long_eq ▸ Nat.le_mul_of_pos_right _ Nat.two_pos

/-- The scalars of the column are at the even rows of its extension. -/
theorem getElem?_fft_ifft {column : List ArkScalar} (hcolumn : column.length = 2 ^ k) {row : ℕ} {s : ArkScalar}
    (hs : column[row]? = some s) : (A.fft d (A.ifft short column))[row * 2]? = some s :=
  A.getElem?_fft_ifft hdom.newShort hdom.newLong hdom.size_long_eq (hcolumn.trans hdom.size_short.symm) hs

/-- Half an extended column gives back its values on the small domain, which are the column. -/
theorem reconstructColumn_fft_ifft (R : Runtime) {column : List ArkScalar} (hcolumn : column.length = 2 ^ k)
    {cells : List DataCell} (hcells : CellsOf A (A.fft d (A.ifft short column)) cells)
    (hcount : 2 ^ k ≤ cells.length) : reconstructColumn A R (2 * 2 ^ k) cells = .ok column := by
  rw [hdom.fft_ifft] at hcells
  rw [reconstructColumn_eq A R hdom.newShort hdom.newLong hdom.size_short hdom.size_long
    (hdom.degree_ifft_lt column) hcells hcount, ← hdom.size_short,
    (A.isTransform hdom.newShort).evals_ifft (hcolumn.trans hdom.size_short.symm)]

end ColumnDomains

/-- **Any half of an extended column gives the column back**, in any order. -/
theorem reconstructColumn_extended (A : Ark) (R : Runtime) {k : ℕ} {short d : EvaluationDomain}
    (hshort : A.newDomain (2 ^ k) = some short) (hd : A.newDomain (2 * 2 ^ k) = some d)
    {column : List ArkScalar} (hcolumn : column.length = 2 ^ k) {cells : List DataCell}
    (hcells : CellsOf A (A.fft d (A.ifft short column)) cells) (hcount : 2 ^ k ≤ cells.length) :
    reconstructColumn A R (2 * 2 ^ k) cells = .ok column :=
  (ColumnDomains.mk hshort hd).reconstructColumn_fft_ifft R hcolumn hcells hcount

/-- Two scalars, from the first and the third of the four that they are extended to. -/
theorem reconstructColumn_extended_two : reconstructColumn bls12381 Runtime.plain 4
    [⟨⟨2, 3⟩, smallChunk 9⟩, ⟨⟨0, 3⟩, smallChunk 7⟩] = .ok [7, 9] := by
  have hdom : ColumnDomains bls12381 1 _ _ := ⟨bls12381_newDomain_two, bls12381_newDomain_four⟩
  refine @reconstructColumn_extended bls12381 Runtime.plain 1 _ _ hdom.newShort hdom.newLong [7, 9] rfl _
    ⟨by decide, by decide, ?_⟩ le_rfl
  intro c hc
  rcases List.mem_pair.mp hc with rfl | rfl
  · exact ⟨9, @ColumnDomains.getElem?_fft_ifft bls12381 1 _ _ hdom [7, 9] rfl 1 9 rfl, rfl⟩
  · exact ⟨7, @ColumnDomains.getElem?_fft_ifft bls12381 1 _ _ hdom [7, 9] rfl 0 7 rfl, rfl⟩

/-! ### What does not change the result -/

/-- The spare capacity of the vector only adds zeros to the polynomial. -/
theorem zeroPolyFn_runtime (A : Ark) (d : EvaluationDomain) (missing : List ℕ) (length : ℕ) :
    ∃ base : Run ReconstructionError (List ArkScalar), ∀ R, zeroPolyFn A R d missing length = do
      let poly ← base
      let zeroPoly := poly ++ List.replicate (R.capacity length poly.length - poly.length) 0
      return (zeroPoly, A.fft d zeroPoly) := by
  refine ⟨do
    let expandedROU ← expandRootOfUnity d
    let domainStride ← Run.div d.size length
    let zeroPoly ← missing.foldlM (fun zeroPoly v => do
      let root ← Run.index expandedROU (v * domainStride)
      return pushRoot zeroPoly (0 - root)) []
    return zeroPoly ++ [1], fun R => ?_⟩
  simp only [zeroPolyFn, bind_assoc, pure_bind]

theorem reconstructPoly_runtime (A : Ark) (R R' : Runtime) {m : ℕ} {d : EvaluationDomain}
    (hd : A.newDomain m = some d) (subset : List (Option ArkScalar)) :
    reconstructPoly A R d subset = reconstructPoly A R' d subset := by
  obtain ⟨base, hbase⟩ := zeroPolyFn_runtime A d (missingIndices subset) subset.length
  have T := A.isTransform hd
  rw [reconstructPoly, reconstructPoly, hbase R, hbase R']
  simp only [bind_assoc, pure_bind, shiftPoly, scale_append_zeros, T.fft_append_zeros]

theorem checkCells_iff {cells : List DataCell} :
    checkCells cells = true ↔
      cells ≠ [] ∧ ∀ c ∈ cells, ∀ c' ∈ cells, c.position.col = c'.position.col := by
  cases cells with
  | nil => simp [checkCells]
  | cons first cells =>
    rw [checkCells, List.all_eq_true]
    constructor
    · intro h
      refine ⟨List.cons_ne_nil _ _, fun c hc c' hc' => ?_⟩
      exact (of_decide_eq_true (h c hc)).trans (of_decide_eq_true (h c' hc')).symm
    · intro h c hc
      exact decide_eq_true (h.2 c hc first (List.mem_cons_self ..))

/-- With one cell for each row, their order does not matter. -/
theorem findRowByIndex_perm {A : Ark} {cells cells' : List DataCell} (h : cells.Perm cells')
    (hnodup : (cells.map fun c => c.position.row).Nodup) (i : ℕ) :
    findRowByIndex A i cells = findRowByIndex A i cells' := by
  rw [findRowByIndex, findRowByIndex, find?_perm_of_nodup h hnodup]

/-- **The order of the cells does not matter, nor what the standard library leaves open.** -/
theorem reconstructColumn_perm (A : Ark) (R R' : Runtime) (rowCount : ℕ) {cells cells' : List DataCell}
    (h : cells.Perm cells') (hnodup : (cells.map fun c => c.position.row).Nodup) :
    reconstructColumn A R rowCount cells = reconstructColumn A R' rowCount cells' := by
  have hcheck : checkCells cells = checkCells cells' := by
    rw [Bool.eq_iff_iff, checkCells_iff, checkCells_iff]
    simp only [h.mem_iff, Ne, ← List.length_eq_zero_iff, h.length_eq]
  have hsubset : ((List.range rowCount).map fun i => findRowByIndex A i cells) =
      (List.range rowCount).map fun i => findRowByIndex A i cells' :=
    List.map_congr_left fun i _ => findRowByIndex_perm h hnodup i
  rw [reconstructColumn, reconstructColumn, h.length_eq, hcheck, hsubset]
  cases hd : A.newDomain rowCount with
  | none => rfl
  | some d => simp only [Run.okOr_some, Except.ok_bind, reconstructPoly_runtime A R R' hd]

end AvailCore
