import AvailCore.Recovery.AppData

/-!
# When a column is reconstructed at all

`reconstruct_column` checks the number of the cells, not how many rows they are in, nor
that their bytes are those of scalars, nor that the rows are a power of two. What it
returns is settled here for every input.

## What is proved

A call returns for every input (`reconstructColumn_returns`), and it returns scalars
when its checks pass, unless no row is known and the rows fill the domain
(`exists_reconstructColumn_iff`); they are then half as many as the domain has points
(`length_of_reconstructColumn`). So with too few known rows, or with cells that no column
has, there is a column anyway (`reconstructColumn_determined_iff`), and for a number of
rows that is no power of two one of another length (`reconstructColumn_rows_iff`).
-/

namespace AvailCore

open Polynomial AvailCore.Fourier ErasureCode

/-- With a domain there is one of half its size: `EvaluationDomain::new` refuses large sizes only. -/
def Ark.HasHalves (A : Ark) : Prop := ∀ {n d}, A.newDomain n = some d → (A.newDomain (d.size / 2)).isSome

theorem bls12381_hasHalves : bls12381.HasHalves := by
  intro n d h
  simp only [bls12381, Option.ite_none_right_eq_some, Option.some.injEq] at h
  obtain ⟨hn, rfl⟩ := h
  have hle : Nat.clog 2 (nextPowerOfTwo n / 2) ≤ 32 := by
    refine (Nat.clog_mono_right 2 (Nat.div_le_self _ 2)).trans ?_
    rwa [nextPowerOfTwo, Nat.clog_pow 2 _ one_lt_two]
  simp only [bls12381, if_pos hle, Option.isSome_some]

/-! ### The polynomial -/

theorem mem_missingIndices {subset : List (Option ArkScalar)} {i : ℕ} :
    i ∈ missingIndices subset ↔ subset[i]? = some none := by
  rw [missingIndices, List.mem_map]
  constructor
  · rintro ⟨⟨o, j⟩, he, rfl⟩
    obtain ⟨hmem, hnone⟩ := List.mem_filter.mp he
    rw [← Option.isNone_iff_eq_none.mp hnone]
    exact List.mem_zipIdx_iff_getElem?.mp hmem
  · intro h
    exact ⟨(none, i), List.mem_filter.mpr ⟨List.mem_zipIdx_iff_getElem?.mpr h, rfl⟩, rfl⟩

theorem length_missingIndices_le (subset : List (Option ArkScalar)) : (missingIndices subset).length ≤ subset.length := by
  rw [missingIndices, List.length_map]
  exact (List.length_filter_le _ _).trans_eq List.length_zipIdx

theorem length_missingIndices_lt {subset : List (Option ArkScalar)} (h : ∃ s, some s ∈ subset) :
    (missingIndices subset).length < subset.length := by
  obtain ⟨s, hs⟩ := h
  obtain ⟨i, hi⟩ := List.mem_iff_getElem?.mp hs
  rw [missingIndices, List.length_map]
  refine (List.length_filter_lt_length_iff_exists.mpr ⟨(some s, i), ?_, ?_⟩).trans_eq List.length_zipIdx
  · exact List.mem_zipIdx_iff_getElem?.mpr hi
  · exact Bool.false_ne_true

section Turns

variable {w : ArkScalar} {n i : ℕ} {p : ArkScalar[X]} (hi : i < n)
include hi

/-- A turn of the first loop passes where the zero polynomial is 0, or the value is known. -/
theorem exists_checkZeroEval {o : Option ArkScalar} (h : o = none → p.eval (w ^ i) = 0) :
    ∃ u, checkZeroEval (evals w n p) (o, i) = .ok u := by
  cases o with
  | some s => exact ⟨(), rfl⟩
  | none => exact ⟨(), by simp [checkZeroEval, index_evals p hi, h rfl]⟩

/-- One of the second always does, -/
theorem exists_mulZeroEval (p : ArkScalar[X]) (o : Option ArkScalar) :
    ∃ s, mulZeroEval (evals w n p) (o, i) = .ok s := by
  cases o with
  | some s =>
    refine ⟨s * p.eval (w ^ i), ?_⟩
    rw [mulZeroEval, index_evals p hi]
    rfl
  | none => exact ⟨0, rfl⟩

/-- and one of the third where the zero polynomial is not 0. -/
theorem exists_divZeroEval (a : ArkScalar) (h : p.eval (w ^ i) ≠ 0) :
    ∃ s, divZeroEval (evals w n p) (a, i) = .ok s := by
  refine ⟨a * (p.eval (w ^ i))⁻¹, ?_⟩
  rw [divZeroEval, index_evals p hi, Except.ok_bind, decide_eq_true h]
  rfl

end Turns

section Subset

variable {A : Ark} {n : ℕ} {d : EvaluationDomain} (hd : A.newDomain n = some d) {subset : List (Option ArkScalar)}
  (hlen : subset.length = n)
include hd

/-- The points of the domain of `n` are fewer than twice as many. -/
theorem size_div_eq_one (hn : 0 < n) : d.size / n = 1 := by
  rw [A.size_newDomain hd]
  have hle := le_nextPowerOfTwo n
  have hlt : nextPowerOfTwo n < 2 * n := by
    by_cases hone : n = 1
    · subst hone
      decide
    · have hpow := Nat.pow_pred_clog_lt_self one_lt_two (show 1 < n by omega)
      have hclog : Nat.clog 2 n = (Nat.clog 2 n).pred + 1 :=
        (Nat.succ_pred_eq_of_pos (Nat.clog_pos one_lt_two (by omega))).symm
      rw [nextPowerOfTwo, hclog, pow_succ]
      omega
  rw [Nat.div_eq_iff hn]
  omega

include hlen

theorem missingIndices_lt {i : ℕ} (hi : i ∈ missingIndices subset) : i < d.size := by
  have hle : n ≤ d.size := A.size_newDomain hd ▸ le_nextPowerOfTwo n
  have hi' := (List.getElem?_eq_some_iff.mp (mem_missingIndices.mp hi)).1
  omega

/-- **Some scalars are returned**, whatever is missing, when it is not all of the domain. -/
theorem exists_reconstructPoly {short : EvaluationDomain} (hshort : A.newDomain (d.size / 2) = some short)
    (R : Runtime) (hn : 0 < n) (hmissing : (missingIndices subset).length < d.size) :
    ∃ v, reconstructPoly A R d subset = .ok v ∧ v.length = short.size := by
  have T := A.isTransform hd
  have hlt : ∀ i ∈ missingIndices subset, i < d.size := fun i hi => missingIndices_lt hd hlen hi
  obtain ⟨poly, m, -, -, hpoly, hrun⟩ := exists_zeroPolyFn A R T.primitive (size_div_eq_one hd hn) hlt
  set zeroPoly := poly ++ [1] ++ List.replicate m 0
  set Z := vanishing d.groupGen (missingIndices subset)
  have hZ : toPoly zeroPoly = Z := by rw [toPoly_zeroPoly, hpoly]
  have hZdeg : Z.degree < d.size := degree_vanishing_lt hmissing
  have hzeroEval : A.fft d zeroPoly = evals d.groupGen d.size Z := T.fft_eq_evals_of hZ hZdeg
  have hle : subset.length ≤ d.size := hlen ▸ A.size_newDomain hd ▸ le_nextPowerOfTwo n
  have hidx : ∀ o i, (o, i) ∈ subset.zipIdx → subset[i]? = some o ∧ i < d.size := by
    intro o i he
    have hi := List.mem_zipIdx_iff_getElem?.mp he
    exact ⟨hi, (List.getElem?_eq_some_iff.mp hi).1.trans_le hle⟩
  -- the zero polynomial is 0 where a value is missing
  obtain ⟨checked, hcheck⟩ : ∃ checked, subset.zipIdx.mapM (checkZeroEval (evals d.groupGen d.size Z)) = .ok checked := by
    refine Except.exists_mapM fun e he => ?_
    obtain ⟨o, i⟩ := e
    obtain ⟨hi, hsize⟩ := hidx o i he
    refine exists_checkZeroEval hsize fun hnone => ?_
    exact (eval_vanishing_eq_zero_iff T.primitive hlt hsize).mpr (mem_missingIndices.mpr (hnone ▸ hi))
  obtain ⟨products, hmul⟩ : ∃ products, subset.zipIdx.mapM (mulZeroEval (evals d.groupGen d.size Z)) = .ok products :=
    Except.exists_mapM fun e he => exists_mulZeroEval (hidx e.1 e.2 he).2 Z e.1
  -- on the shifted domain it is nowhere 0
  have hshifted := fft_shiftPoly T hZ hZdeg
  obtain ⟨quotients, hdiv⟩ : ∃ quotients, (A.fft d (shiftPoly (A.ifft d products))).zipIdx.mapM
      (divZeroEval (evals d.groupGen d.size (Z.comp (C (5 : ArkScalar)⁻¹ * X)))) = .ok quotients := by
    refine Except.exists_mapM fun e he => ?_
    obtain ⟨a, i⟩ := e
    have hi := (List.getElem?_eq_some_iff.mp (List.mem_zipIdx_iff_getElem?.mp he)).1
    rw [T.length_fft] at hi
    refine exists_divZeroEval hi a ?_
    rw [eval_comp_scale]
    exact eval_vanishing_shift_ne_zero T.primitive.pow_eq_one (five_inv_pow_size_ne_one hd) _ i
  refine ⟨A.fft short (unshiftPoly (A.ifft d quotients)), ?_, (A.isTransform hshort).length_fft _⟩
  simp only [reconstructPoly, hlen, hrun, Except.ok_bind, hzeroEval, hcheck, hmul, hshifted, hdiv, hshort,
    Run.unwrap_some, Except.pure_eq_ok]

end Subset

/-- With all of the domain missing, the zero polynomial does not fit in it, and the check fails. -/
theorem reconstructPoly_blank {A : Ark} (R : Runtime) {n : ℕ} {d : EvaluationDomain} (hd : A.newDomain n = some d)
    (hn : 0 < n) (hsize : d.size = n) :
    reconstructPoly A R d (List.replicate n none) = Run.fail .badZeroPoly := by
  have T := A.isTransform hd
  have hlen : (List.replicate n (none : Option ArkScalar)).length = n := List.length_replicate
  set missing := missingIndices (List.replicate n none) with hmissing
  have hlt : ∀ i ∈ missing, i < d.size := fun i hi => missingIndices_lt hd hlen hi
  obtain ⟨poly, m, hpolylen, -, hpoly, hrun⟩ := exists_zeroPolyFn A R T.primitive (size_div_eq_one hd hn) hlt
  have hcount : missing.length = d.size := by
    rw [hsize, hmissing, missingIndices, List.length_map, List.filter_eq_self.mpr, List.length_zipIdx, hlen]
    intro e he
    have hnone := List.mem_of_getElem? (List.mem_zipIdx_iff_getElem?.mp he)
    rw [List.eq_of_mem_replicate hnone]
    rfl
  -- without its leading term, the polynomial of all the missing powers is -1 on the domain
  have hzero : (vanishing d.groupGen missing).eval (d.groupGen ^ 0) = 0 := by
    rw [eval_vanishing_eq_zero_iff T.primitive hlt (by omega), hmissing, mem_missingIndices, List.getElem?_replicate,
      if_pos hn]
  have hone : (toPoly poly).eval (d.groupGen ^ 0) = -1 := by
    rw [← hpoly, eval_add, eval_pow, eval_X, pow_zero, one_pow] at hzero
    rw [pow_zero]
    exact eq_neg_of_add_eq_zero_left hzero
  have htake : (poly ++ [1] ++ List.replicate m 0).take d.size = poly := by
    rw [List.append_assoc, List.take_left' (hpolylen.trans hcount)]
  have hindex : (Run.index (evals d.groupGen d.size (toPoly poly)) 0 : Run ReconstructionError ArkScalar) = .ok (-1) := by
    rw [index_evals _ (by omega), hone]
  obtain ⟨k, rfl⟩ := Nat.exists_eq_succ_of_ne_zero hn.ne'
  have hne : decide ((-1 : ArkScalar) = 0) = false := decide_eq_false (neg_ne_zero.mpr one_ne_zero)
  have hcheck : (List.replicate (k + 1) none).zipIdx.mapM (checkZeroEval (evals d.groupGen d.size (toPoly poly))) =
      Run.fail .badZeroPoly := by
    rw [List.replicate_succ, List.zipIdx_cons, List.mapM_cons, checkZeroEval, hindex, Except.ok_bind, hne]
    rfl
  simp only [reconstructPoly, ← hmissing, hlen, hrun, Except.ok_bind, T.fft_eq, htake, hcheck]
  rfl

/-! ### The column -/

/-- The checks of `reconstruct_column` pass. -/
structure Accepted (A : Ark) (rowCount : ℕ) (cells : List DataCell) : Prop where
  even : rowCount % 2 = 0
  min : rowCount / 2 ≤ cells.length
  max : cells.length ≤ rowCount
  sameCol : checkCells cells = true
  domain : (A.newDomain rowCount).isSome

/-- The rows fill the domain, and none of them is known. -/
def Blank (A : Ark) (rowCount : ℕ) (cells : List DataCell) : Prop :=
  isPowerOfTwo rowCount = true ∧ ∀ i < rowCount, findRowByIndex A i cells = none

theorem Accepted.two_le {A : Ark} {rowCount : ℕ} {cells : List DataCell} (h : Accepted A rowCount cells) :
    2 ≤ rowCount := by
  have hpos := List.length_pos_iff.mpr (checkCells_iff.mp h.sameCol).1
  have hmax := h.max
  have heven := h.even
  omega

/-- Half the points of the domain of at least two rows are those of a domain. -/
theorem nextPowerOfTwo_half {n : ℕ} (hn : 2 ≤ n) : nextPowerOfTwo (nextPowerOfTwo n / 2) = nextPowerOfTwo n / 2 := by
  obtain ⟨k, hk⟩ := Nat.exists_eq_succ_of_ne_zero (Nat.clog_pos one_lt_two hn).ne'
  have hhalf : nextPowerOfTwo n / 2 = 2 ^ k := by
    rw [nextPowerOfTwo, hk, pow_succ, Nat.mul_div_cancel _ two_pos]
  rw [hhalf, nextPowerOfTwo_two_pow]

section Column

variable {A : Ark} (hA : A.HasHalves) (R : Runtime) {rowCount : ℕ} {cells : List DataCell}

theorem reconstructColumn_blank (h : Accepted A rowCount cells) (hblank : Blank A rowCount cells) :
    reconstructColumn A R rowCount cells = Run.fail .badZeroPoly := by
  obtain ⟨d, hd⟩ := Option.isSome_iff_exists.mp h.domain
  have hsize : d.size = rowCount := A.size_newDomain_eq hd hblank.1
  have hsubset : ((List.range rowCount).map fun i => findRowByIndex A i cells) = List.replicate rowCount none := by
    rw [List.eq_replicate_iff, List.length_map, List.length_range]
    refine ⟨rfl, fun o ho => ?_⟩
    obtain ⟨i, hi, rfl⟩ := List.mem_map.mp ho
    exact hblank.2 i (List.mem_range.mp hi)
  have hpos : 0 < rowCount := two_pos.trans_le h.two_le
  simp only [reconstructColumn, h.even, h.min, h.max, h.sameCol, hd, hsubset, decide_true, Run.ensure_true,
    Run.okOr_some, Except.ok_bind, reconstructPoly_blank R hd hpos hsize]

include hA

/-- **When its checks pass, scalars are returned**, unless nothing is known on the whole domain. -/
theorem exists_reconstructColumn (h : Accepted A rowCount cells) (hblank : ¬ Blank A rowCount cells) :
    ∃ v, reconstructColumn A R rowCount cells = .ok v ∧ v.length = nextPowerOfTwo rowCount / 2 := by
  obtain ⟨d, hd⟩ := Option.isSome_iff_exists.mp h.domain
  obtain ⟨short, hshort⟩ := Option.isSome_iff_exists.mp (hA hd)
  set subset := (List.range rowCount).map fun i => findRowByIndex A i cells with hsubset
  have hlen : subset.length = rowCount := by rw [hsubset, List.length_map, List.length_range]
  have hle : rowCount ≤ d.size := A.size_newDomain hd ▸ le_nextPowerOfTwo rowCount
  have hmissing : (missingIndices subset).length < d.size := by
    by_cases hpow : isPowerOfTwo rowCount = true
    · have hknown : ∃ i, i < rowCount ∧ findRowByIndex A i cells ≠ none := by
        by_contra hnone
        push Not at hnone
        exact hblank ⟨hpow, hnone⟩
      obtain ⟨i, hi, hne⟩ := hknown
      obtain ⟨s, hs⟩ := Option.ne_none_iff_exists'.mp hne
      have hmem : some s ∈ subset := List.mem_map.mpr ⟨i, List.mem_range.mpr hi, hs⟩
      exact (length_missingIndices_lt ⟨s, hmem⟩).trans_le (hlen.trans_le hle)
    · -- the domain has more points than there are rows
      have hlt : rowCount < d.size := by
        refine lt_of_le_of_ne hle fun heq => hpow (beq_iff_eq.mpr ?_)
        rw [← A.size_newDomain hd, ← heq]
      exact (length_missingIndices_le subset).trans_lt (hlen.trans_lt hlt)
  obtain ⟨v, hv, hvlen⟩ := exists_reconstructPoly hd hlen hshort R (two_pos.trans_le h.two_le) hmissing
  refine ⟨v, ?_, ?_⟩
  · simp only [reconstructColumn, h.even, h.min, h.max, h.sameCol, hd, ← hsubset, hv, decide_true, Run.ensure_true,
      Run.okOr_some, Except.ok_bind]
  · rw [hvlen, A.size_newDomain hshort, A.size_newDomain hd, nextPowerOfTwo_half h.two_le]

/-- **Exactly then.** -/
theorem exists_reconstructColumn_iff : (∃ v, reconstructColumn A R rowCount cells = .ok v) ↔
    Accepted A rowCount cells ∧ ¬ Blank A rowCount cells := by
  constructor
  · rintro ⟨v, hv⟩
    have hacc : Accepted A rowCount cells := by
      simp only [reconstructColumn, Except.bind_eq_ok, Run.ensure_eq_ok, Run.okOr_eq_ok, decide_eq_true_eq] at hv
      obtain ⟨-, heven, -, hmin, -, hmax, -, hcol, d, hd, -⟩ := hv
      exact ⟨heven, hmin, hmax, hcol, Option.isSome_of_eq_some hd⟩
    refine ⟨hacc, fun hblank => ?_⟩
    rw [reconstructColumn_blank R hacc hblank] at hv
    cases hv
  · rintro ⟨hacc, hblank⟩
    obtain ⟨v, hv, -⟩ := exists_reconstructColumn hA R hacc hblank
    exact ⟨v, hv⟩

theorem length_of_reconstructColumn {v : List ArkScalar} (h : reconstructColumn A R rowCount cells = .ok v) :
    v.length = nextPowerOfTwo rowCount / 2 := by
  obtain ⟨hacc, hblank⟩ := (exists_reconstructColumn_iff hA R).mp ⟨v, h⟩
  obtain ⟨v', hv', hlen⟩ := exists_reconstructColumn hA R hacc hblank
  rw [h, Except.ok.injEq] at hv'
  rw [hv', hlen]

/-- **The call returns**: no index is out of bounds, and the half domain exists. -/
theorem reconstructColumn_returns (rowCount : ℕ) (cells : List DataCell) :
    Run.Returns (reconstructColumn A R rowCount cells) := by
  by_cases hacc : Accepted A rowCount cells
  · by_cases hblank : Blank A rowCount cells
    · rw [reconstructColumn_blank R hacc hblank]
      exact Run.returns_fail _
    · obtain ⟨v, hv, -⟩ := exists_reconstructColumn hA R hacc hblank
      rw [hv]
      exact Run.returns_ok v
  · -- a check does not pass, and what comes after it is not run
    simp only [reconstructColumn, Run.returns_bind, Run.returns_ensure, Run.returns_okOr, Run.ensure_eq_ok,
      Run.okOr_eq_ok, decide_eq_true_eq, true_and]
    intro _ heven _ hmin _ hmax _ hcol d hd
    exact absurd ⟨heven, hmin, hmax, hcol, Option.isSome_of_eq_some hd⟩ hacc

end Column

/-! ### Rows that are known -/

/-- The rows of the column whose cell, the first of them, has the bytes of a scalar. -/
def decodedRows (A : Ark) (rowCount : ℕ) (cells : List DataCell) : List ℕ :=
  (List.range rowCount).filter fun i => (findRowByIndex A i cells).isSome

/-- A column of half as many scalars as there are rows, in whose extension the cells have their values. -/
structure ColumnOf (A : Ark) (rowCount : ℕ) (cells : List DataCell) (column : List ArkScalar) : Prop where
  length : column.length = rowCount / 2
  value : ∃ short d, A.newDomain (rowCount / 2) = some short ∧ A.newDomain rowCount = some d ∧
    ∀ c ∈ cells, c.position.row < rowCount → ∀ s, A.fromBytes c.data = some s →
      (A.fft d (A.ifft short column))[c.position.row]? = some s

/-- The cells determine a column: half the rows are known, and it is the only one that has the cells. -/
structure Determines (A : Ark) (rowCount : ℕ) (cells : List DataCell) (column : List ArkScalar) : Prop where
  half : rowCount / 2 ≤ (decodedRows A rowCount cells).length
  columnOf : ColumnOf A rowCount cells column
  unique : ∀ column', ColumnOf A rowCount cells column' → column' = column

/-- A number of rows that passes the check, if it is a power of two. -/
theorem exists_two_mul_two_pow {n : ℕ} (heven : n % 2 = 0) (hpow : isPowerOfTwo n = true) (hn : 2 ≤ n) :
    ∃ k, n = 2 * 2 ^ k := by
  have hsize : nextPowerOfTwo n = n := (beq_iff_eq.mp hpow).symm
  have hhalf : nextPowerOfTwo (n / 2) = n / 2 := by
    have h := nextPowerOfTwo_half hn
    rwa [hsize] at h
  refine ⟨Nat.clog 2 (n / 2), ?_⟩
  rw [nextPowerOfTwo] at hhalf
  omega

/-- A row that is known has its value in every column that has the cells. -/
theorem ColumnOf.findRowByIndex_eq {A : Ark} {k : ℕ} {short d : EvaluationDomain} (hdom : ColumnDomains A k short d)
    {cells : List DataCell} {column : List ArkScalar} (h : ColumnOf A (2 * 2 ^ k) cells column) {i : ℕ}
    (hi : i < 2 * 2 ^ k) {s : ArkScalar} (hs : findRowByIndex A i cells = some s) :
    s = (toPoly (A.ifft short column)).eval (d.groupGen ^ i) := by
  obtain ⟨short', d', hshort, hd, hvalue⟩ := h.value
  rw [Nat.mul_div_cancel_left _ two_pos, hdom.newShort, Option.some.injEq] at hshort
  rw [hdom.newLong, Option.some.injEq] at hd
  subst hshort hd
  obtain ⟨c, hc, hbytes⟩ := Option.bind_eq_some_iff.mp hs
  have hrow : c.position.row = i := by simpa using List.find?_some hc
  subst hrow
  have hget := hvalue c (List.mem_of_find?_eq_some hc) hi s hbytes
  rw [hdom.fft_ifft, getElem?_evals _ _ _ (by rwa [hdom.size_long]), Option.some.injEq] at hget
  exact hget.symm

/-- **A column that has the cells is the one that is returned**, when half its rows are known. -/
theorem reconstructColumn_columnOf {A : Ark} (R : Runtime) {k : ℕ} {short d : EvaluationDomain}
    (hdom : ColumnDomains A k short d) {cells : List DataCell} (hacc : Accepted A (2 * 2 ^ k) cells)
    (hhalf : 2 ^ k ≤ (decodedRows A (2 * 2 ^ k) cells).length) {column : List ArkScalar}
    (h : ColumnOf A (2 * 2 ^ k) cells column) : reconstructColumn A R (2 * 2 ^ k) cells = .ok column := by
  have hlen : column.length = 2 ^ k := by rw [h.length, Nat.mul_div_cancel_left _ two_pos]
  have hsubset : ((List.range (2 * 2 ^ k)).map fun i => findRowByIndex A i cells) =
      knownEvals d.groupGen d.size (fun i => (findRowByIndex A i cells).isSome) (toPoly (A.ifft short column)) := by
    rw [knownEvals, hdom.size_long]
    refine List.map_congr_left fun i hi => ?_
    cases hs : findRowByIndex A i cells with
    | none => rfl
    | some s => rw [h.findRowByIndex_eq hdom (List.mem_range.mp hi) hs]; rfl
  have hmissing : ((List.range d.size).filter fun i => !(findRowByIndex A i cells).isSome).length ≤ 2 ^ k := by
    have hcount := List.length_eq_length_filter_add (l := List.range d.size)
      fun i => (findRowByIndex A i cells).isSome
    rw [List.length_range, hdom.size_long] at hcount
    rw [hdom.size_long]
    rw [decodedRows] at hhalf
    omega
  have hpoly := reconstructPoly_eq A R hdom.newLong hdom.size_long hdom.newShort hdom.size_short
    (hdom.degree_ifft_lt column) hmissing
  have hvalues : evals short.groupGen (2 ^ k) (toPoly (A.ifft short column)) = column := by
    rw [← hdom.size_short, (A.isTransform hdom.newShort).evals_ifft (hlen.trans hdom.size_short.symm)]
  rw [← hsubset, hvalues] at hpoly
  simp only [reconstructColumn, hacc.even, hacc.min, hacc.max, hacc.sameCol, hdom.newLong, hpoly, decide_true,
    Run.ensure_true, Run.okOr_some, Except.ok_bind]

/-- **What is returned is determined by the cells exactly when** the checks do not pass, or nothing is known on the
whole domain, or the rows are a power of two, half of them are known, and the cells are those of some column: the
number that is compared is that of the cells, and nothing compares their values. -/
theorem reconstructColumn_determined_iff {A : Ark} (hA : A.HasHalves) (R : Runtime) (rowCount : ℕ)
    (cells : List DataCell) :
    (∀ v, reconstructColumn A R rowCount cells = .ok v → Determines A rowCount cells v) ↔
      ¬ Accepted A rowCount cells ∨ Blank A rowCount cells ∨
        isPowerOfTwo rowCount = true ∧ rowCount / 2 ≤ (decodedRows A rowCount cells).length ∧
          ∃ column, ColumnOf A rowCount cells column := by
  have hiff := @exists_reconstructColumn_iff A hA R rowCount cells
  constructor
  · intro hdetermined
    rw [or_iff_not_imp_left, not_not, or_iff_not_imp_left]
    intro hacc hblank
    obtain ⟨v, hv⟩ := hiff.mpr ⟨hacc, hblank⟩
    have hdet := hdetermined v hv
    refine ⟨?_, hdet.half, v, hdet.columnOf⟩
    -- another number of rows gives another number of scalars
    have hlen := (length_of_reconstructColumn hA R hv).symm.trans hdet.columnOf.length
    have heven : nextPowerOfTwo rowCount % 2 = 0 := by
      obtain ⟨k, hk⟩ := Nat.exists_eq_succ_of_ne_zero (Nat.clog_pos one_lt_two hacc.two_le).ne'
      rw [nextPowerOfTwo, hk, pow_succ, Nat.mul_mod_left]
    have := hacc.even
    exact beq_iff_eq.mpr (by omega)
  · intro hcond v hv
    obtain ⟨hacc, hblank⟩ := hiff.mp ⟨v, hv⟩
    obtain ⟨hpow, hhalf, column, hcolumn⟩ := (hcond.resolve_left (not_not_intro hacc)).resolve_left hblank
    obtain ⟨k, rfl⟩ := exists_two_mul_two_pow hacc.even hpow hacc.two_le
    obtain ⟨short, d, hshort, hd, -⟩ := id hcolumn.value
    rw [Nat.mul_div_cancel_left _ two_pos] at hshort hhalf
    have hdom : ColumnDomains A k short d := ⟨hshort, hd⟩
    have hvalue : ∀ column', ColumnOf A (2 * 2 ^ k) cells column' → column' = v := by
      intro column' hcolumn'
      have hrun := reconstructColumn_columnOf R hdom hacc hhalf hcolumn'
      rw [hv, Except.ok.injEq] at hrun
      exact hrun.symm
    obtain rfl := hvalue column hcolumn
    exact ⟨by rwa [Nat.mul_div_cancel_left _ two_pos], hcolumn, hvalue⟩

/-- Two rows of a column of two scalars. -/
theorem reconstructColumn_determined_iff_two :
    ∃ v, reconstructColumn bls12381 Runtime.plain 4 [⟨⟨2, 3⟩, smallChunk 9⟩, ⟨⟨0, 3⟩, smallChunk 7⟩] = .ok v ∧
      Determines bls12381 4 [⟨⟨2, 3⟩, smallChunk 9⟩, ⟨⟨0, 3⟩, smallChunk 7⟩] v := by
  have hdom : ColumnDomains bls12381 1 _ _ := ⟨bls12381_newDomain_two, bls12381_newDomain_four⟩
  have hacc : Accepted bls12381 4 [⟨⟨2, 3⟩, smallChunk 9⟩, ⟨⟨0, 3⟩, smallChunk 7⟩] :=
    ⟨rfl, by decide, by decide, rfl, rfl⟩
  have hvalue : ColumnOf bls12381 4 [⟨⟨2, 3⟩, smallChunk 9⟩, ⟨⟨0, 3⟩, smallChunk 7⟩] [7, 9] := by
    refine ⟨rfl, _, _, hdom.newShort, hdom.newLong, ?_⟩
    intro c hc _ s hs
    rcases List.mem_pair.mp hc with rfl | rfl
    · cases hs
      exact @ColumnDomains.getElem?_fft_ifft bls12381 1 _ _ hdom [7, 9] rfl 1 9 rfl
    · cases hs
      exact @ColumnDomains.getElem?_fft_ifft bls12381 1 _ _ hdom [7, 9] rfl 0 7 rfl
  have hrun := reconstructColumn_columnOf Runtime.plain hdom hacc (by decide) hvalue
  exact ⟨_, hrun, (reconstructColumn_determined_iff bls12381_hasHalves Runtime.plain 4 _).mpr
    (Or.inr (Or.inr ⟨by decide, by decide, [7, 9], hvalue⟩)) _ hrun⟩

/-- Two cells of one row, of a column of four rows. -/
theorem reconstructColumn_same_row :
    (∃ v, reconstructColumn bls12381 Runtime.plain 4 [⟨⟨0, 0⟩, smallChunk 7⟩, ⟨⟨0, 0⟩, smallChunk 7⟩] = .ok v) ∧
      (decodedRows bls12381 4 [⟨⟨0, 0⟩, smallChunk 7⟩, ⟨⟨0, 0⟩, smallChunk 7⟩]).length < 4 / 2 := by
  refine ⟨(exists_reconstructColumn_iff bls12381_hasHalves Runtime.plain).mpr ⟨⟨rfl, ?_, ?_, rfl, ?_⟩, ?_⟩, by decide⟩
  · decide
  · decide
  · decide
  · intro hblank
    have hsome : (findRowByIndex bls12381 0 [⟨⟨0, 0⟩, smallChunk 7⟩, ⟨⟨0, 0⟩, smallChunk 7⟩]).isSome := rfl
    rw [hblank.2 0 (by decide)] at hsome
    cases hsome

/-! ### Rows that are no power of two -/

theorem isPowerOfTwo_mul_two {n : ℕ} (hn : 0 < n) : isPowerOfTwo (n * 2) = isPowerOfTwo n := by
  have hdouble : nextPowerOfTwo (n * 2) = nextPowerOfTwo n * 2 := by
    have hmul := nextPowerOfTwo_two_pow_mul 1 hn
    rwa [pow_one, Nat.mul_comm, Nat.mul_comm 2] at hmul
  rw [isPowerOfTwo, isPowerOfTwo, hdouble, Bool.eq_iff_iff, beq_iff_eq, beq_iff_eq]
  exact Nat.mul_left_inj two_ne_zero

theorem Dimensions.isPowerOfTwo_extendedRows (d : Dimensions) : isPowerOfTwo d.extendedRows = isPowerOfTwo d.height :=
  isPowerOfTwo_mul_two d.height_pos

/-- The cells of a matrix whose columns with cells have as many as it has rows, and a domain. -/
structure Reconstructible (A : Ark) (dimensions : Dimensions) (cells : List DataCell) : Prop where
  mappable : Mappable dimensions cells
  domain : (A.newDomain dimensions.extendedRows).isSome
  half : ∀ col, inColumn cells col ≠ [] → dimensions.height ≤ (inColumn cells col).length

section Rows

variable {A : Ark} {dimensions : Dimensions} {cells : List DataCell}

theorem Mappable.accepted_iff (h : Mappable dimensions cells) {col : ℕ} (hne : inColumn cells col ≠ []) :
    Accepted A dimensions.extendedRows (inColumn cells col) ↔
      dimensions.height ≤ (inColumn cells col).length ∧ (A.newDomain dimensions.extendedRows).isSome := by
  have hhalf : dimensions.extendedRows / 2 = dimensions.height := Nat.mul_div_cancel dimensions.height two_pos
  constructor
  · intro hacc
    exact ⟨hhalf ▸ hacc.min, hacc.domain⟩
  · rintro ⟨hmin, hdomain⟩
    refine ⟨Nat.mul_mod_left _ 2, hhalf.symm ▸ hmin, h.length_inColumn_le col, checkCells_iff.mpr ⟨hne, ?_⟩, hdomain⟩
    intro c hc c' hc'
    rw [of_decide_eq_true (List.mem_filter.mp hc).2, of_decide_eq_true (List.mem_filter.mp hc').2]

variable (hA : A.HasHalves) (R : Runtime) (hrows : isPowerOfTwo dimensions.height = false)
include hA hrows

/-- Nothing stops a number of rows that is no power of two. -/
theorem exists_columnOf_iff (h : Mappable dimensions cells) {col : ℕ} (hne : inColumn cells col ≠ []) :
    (∃ scalars, columnOf A R dimensions cells col = .ok scalars) ↔
      dimensions.height ≤ (inColumn cells col).length ∧ (A.newDomain dimensions.extendedRows).isSome := by
  have hblank : ¬ Blank A dimensions.extendedRows (inColumn cells col) := by
    intro hblank
    have hpow := hblank.1
    rw [dimensions.isPowerOfTwo_extendedRows, hrows] at hpow
    exact Bool.false_ne_true hpow
  have hrun := @exists_reconstructColumn_iff A hA R dimensions.extendedRows (inColumn cells col)
  rw [h.accepted_iff hne, and_iff_left hblank] at hrun
  simp only [columnOf, Except.bind_eq_ok, Run.ensure_eq_ok, decide_eq_true_eq]
  rw [← hrun]
  constructor
  · rintro ⟨scalars, -, -, hscalars⟩
    exact ⟨scalars, hscalars⟩
  · rintro ⟨scalars, hscalars⟩
    exact ⟨scalars, (), (hrun.mp ⟨scalars, hscalars⟩).1, hscalars⟩

theorem reconstructible_iff (hne : cells ≠ []) : Reconstructible A dimensions cells ↔ Mappable dimensions cells ∧
    ∀ col, inColumn cells col ≠ [] → ∃ scalars, columnOf A R dimensions cells col = .ok scalars := by
  constructor
  · intro h
    exact ⟨h.mappable, fun col hcol => (exists_columnOf_iff hA R hrows h.mappable hcol).mpr ⟨h.half col hcol, h.domain⟩⟩
  · rintro ⟨hmap, hall⟩
    have hcol : ∀ col, inColumn cells col ≠ [] → dimensions.height ≤ (inColumn cells col).length ∧
        (A.newDomain dimensions.extendedRows).isSome :=
      fun col hcol => (exists_columnOf_iff hA R hrows hmap hcol).mp (hall col hcol)
    obtain ⟨c, hc⟩ := List.exists_mem_of_ne_nil cells hne
    exact ⟨hmap, (hcol _ (inColumn_ne_nil hc)).2, fun col hne => (hcol col hne).1⟩

/-- Columns with cells come back when the cells are enough of a matrix. -/
theorem reconstructColumns_rows_iff (T : Traversal (ℕ × Std.HashMap ℕ DataCell)) (sent : List SingleCell) :
    (∀ m, reconstructColumns A R T dimensions sent = .ok m →
      ∀ col, inColumn (sent.map SingleCell.toDataCell) col ≠ [] → m[col]? = none) ↔
    sent = [] ∨ ¬ Reconstructible A dimensions (sent.map SingleCell.toDataCell) := by
  constructor
  · intro hnever
    refine or_iff_not_imp_left.mpr fun hne h => ?_
    have hcells : sent.map SingleCell.toDataCell ≠ [] := fun hnil => hne (List.map_eq_nil_iff.mp hnil)
    obtain ⟨hmap, hall⟩ := (reconstructible_iff hA R hrows hcells).mp h
    obtain ⟨m, hrun, hm⟩ := exists_reconstructColumns T hmap fun col hcol => exists_chunksOfColumn_iff.mpr (hall col hcol)
    obtain ⟨c, hc⟩ := List.exists_mem_of_ne_nil _ hcells
    have hcol := hm c.position.col
    rw [if_neg (inColumn_ne_nil hc), hnever m hrun _ (inColumn_ne_nil hc)] at hcol
    obtain ⟨chunks, -, hget⟩ := hcol
    cases hget
  · rintro (rfl | h) m hm col hcol
    · exact absurd rfl hcol
    · have hcells : sent.map SingleCell.toDataCell ≠ [] := by
        intro hnil
        rw [hnil] at hcol
        exact hcol rfl
      obtain ⟨hmap, hcolumns⟩ := reconstructColumns_eq_ok_iff.mp hm
      refine absurd ((reconstructible_iff hA R hrows hcells).mpr ⟨hmap, fun col' hcol' => ?_⟩) h
      have hentry := hcolumns col'
      rw [if_neg hcol'] at hentry
      obtain ⟨chunks, hchunks, -⟩ := hentry
      exact exists_chunksOfColumn_iff.mp ⟨chunks, hchunks⟩

theorem reconstructExtrinsics_rows_iff (K : Codec AppData) :
    (∀ lookup v, reconstructExtrinsics A R K lookup dimensions cells = .ok v → ∀ col, inColumn cells col = []) ↔
      cells = [] ∨ ¬ Reconstructible A dimensions cells := by
  constructor
  · intro hnever
    refine or_iff_not_imp_left.mpr fun hne h => ?_
    obtain ⟨data, hdata⟩ := exists_reconstructAvailable_iff.mpr ((reconstructible_iff hA R hrows hne).mp h)
    have hempty : reconstructExtrinsics A R K ⟨[]⟩ dimensions cells = .ok [] :=
      reconstructExtrinsics_eq_ok_iff.mpr ⟨data, hdata, List.Forall₂.nil⟩
    obtain ⟨c, hc⟩ := List.exists_mem_of_ne_nil cells hne
    exact inColumn_ne_nil hc (hnever _ _ hempty c.position.col)
  · rintro (rfl | h) lookup v hv col
    · rfl
    · by_contra hcol
      have hne : cells ≠ [] := by
        rintro rfl
        exact hcol rfl
      obtain ⟨data, hdata, -⟩ := reconstructExtrinsics_eq_ok_iff.mp hv
      exact h ((reconstructible_iff hA R hrows hne).mpr (exists_reconstructAvailable_iff.mp ⟨data, hdata⟩))

end Rows

/-- **Half the rows come back for a power of two, and for no other number**: nothing checks it. A column of another
even number of rows is returned with another length, and so is each column of a matrix. -/
theorem reconstructColumn_rows_iff {A : Ark} (hA : A.HasHalves) (R : Runtime)
    (T : Traversal (ℕ × Std.HashMap ℕ DataCell)) (K : Codec AppData) :
    (∀ rowCount cells, (∀ v, reconstructColumn A R rowCount cells = .ok v →
        isPowerOfTwo rowCount = true ∧ v.length = rowCount / 2) ↔
      isPowerOfTwo rowCount = true ∨ ¬ Accepted A rowCount cells) ∧
    ∀ dimensions : Dimensions, isPowerOfTwo dimensions.height = false →
      (∀ sent : List SingleCell, (∀ m, reconstructColumns A R T dimensions sent = .ok m →
          ∀ col, inColumn (sent.map SingleCell.toDataCell) col ≠ [] → m[col]? = none) ↔
        sent = [] ∨ ¬ Reconstructible A dimensions (sent.map SingleCell.toDataCell)) ∧
      ∀ cells, (∀ lookup v, reconstructExtrinsics A R K lookup dimensions cells = .ok v →
          ∀ col, inColumn cells col = []) ↔
        cells = [] ∨ ¬ Reconstructible A dimensions cells := by
  refine ⟨fun rowCount cells => ⟨?_, ?_⟩, fun dimensions hrows => ⟨fun sent => ?_, fun cells => ?_⟩⟩
  · intro hhalf
    by_contra hnot
    push Not at hnot
    obtain ⟨hpow, hacc⟩ := hnot
    obtain ⟨v, hv, -⟩ := exists_reconstructColumn hA R hacc fun hblank => hpow hblank.1
    exact hpow (hhalf v hv).1
  · rintro (hpow | hacc) v hv
    · refine ⟨hpow, ?_⟩
      rw [length_of_reconstructColumn hA R hv, ← beq_iff_eq.mp hpow]
    · exact absurd ((exists_reconstructColumn_iff hA R).mp ⟨v, hv⟩).1 hacc
  · exact reconstructColumns_rows_iff hA R hrows T sent
  · exact reconstructExtrinsics_rows_iff hA R hrows K

theorem reconstructColumn_rows_iff_four : isPowerOfTwo 4 = true ∧
    ∀ v, reconstructColumn bls12381 Runtime.plain 4 [⟨⟨0, 0⟩, smallChunk 7⟩, ⟨⟨3, 0⟩, smallChunk 7⟩] = .ok v →
      v.length = 4 / 2 := by
  have hpow : isPowerOfTwo 4 = true := by decide
  refine ⟨hpow, fun v hv => ?_⟩
  exact (((reconstructColumn_rows_iff bls12381_hasHalves Runtime.plain (Traversal.plain _) scaleAppData).1 4 _).mpr
    (Or.inl hpow) v hv).2

/-- Half of a column of six rows, from which four scalars come back. -/
theorem reconstructColumn_six_rows : isPowerOfTwo 6 = false ∧
    ∃ v, reconstructColumn bls12381 Runtime.plain 6
      [⟨⟨0, 0⟩, smallChunk 7⟩, ⟨⟨1, 0⟩, smallChunk 7⟩, ⟨⟨2, 0⟩, smallChunk 7⟩] = .ok v ∧ v.length = 4 := by
  refine ⟨by decide, exists_reconstructColumn bls12381_hasHalves Runtime.plain ⟨rfl, ?_, ?_, rfl, ?_⟩ ?_⟩
  · decide
  · decide
  · decide
  · rintro ⟨hpow, -⟩
    exact absurd hpow (by decide)

end AvailCore
