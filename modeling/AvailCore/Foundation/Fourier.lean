import AvailCore.Foundation.Chunks
import Mathlib.Algebra.Field.GeomSum
import Mathlib.Data.List.GetD
import Mathlib.LinearAlgebra.Lagrange
import Mathlib.RingTheory.RootsOfUnity.PrimitiveRoots

/-!
# Evaluation and interpolation on the powers of a root of unity

A list of field elements read as the coefficients of a polynomial (`toPoly`), its
values on the first `n` powers of `w` (`evals`), and what it is for two functions on
lists to be the fast Fourier transform of that domain and its inverse
(`IsTransform`): the first evaluates, the second finds the one list of `n`
coefficients with the given values, and both resize their input to the domain.

The lemmas are what a proof that uses transforms needs, however they are computed: a
polynomial of degree below `n` is determined by its `n` values (`eq_of_evals_eq`), the
inverse transform of its values is its coefficients (`toPoly_ifft_evals`), and the
polynomial of a list whose `j`-th entry is multiplied by `sʲ` is the polynomial at `s x`
(`toPoly_scale`). The sums of the definition, `dft` and `idft`, are such transforms
(`dft_isTransform`), and there are no others (`eq_dft`). They are defined for lists over
any module, and from one domain to another they are one linear map for all of them
(`getD_dft_idft`).
-/

namespace AvailCore.Fourier

open Polynomial Chunks

variable {F : Type*} [Field F]

/-! ### Coefficient lists -/

/-- The polynomial with coefficients `cs`, constant term first. -/
noncomputable def toPoly (cs : List F) : F[X] :=
  ∑ i ∈ Finset.range cs.length, monomial i (cs.getD i 0)

@[simp] theorem coeff_toPoly (cs : List F) (j : ℕ) : (toPoly cs).coeff j = cs.getD j 0 := by
  simp only [toPoly, finsetSum_coeff, coeff_monomial]
  rw [Finset.sum_ite_eq' (Finset.range cs.length) j fun i => cs.getD i 0]
  split_ifs with h
  · rfl
  · rw [Finset.mem_range, not_lt] at h
    rw [List.getD_eq_default _ _ h]

theorem degree_toPoly_lt (cs : List F) : (toPoly cs).degree < cs.length := by
  rw [degree_lt_iff_coeff_zero]
  intro m hm
  rw [coeff_toPoly, List.getD_eq_default _ _ (by exact_mod_cast hm)]

theorem eval_toPoly (cs : List F) (x : F) :
    (toPoly cs).eval x = ∑ j ∈ Finset.range cs.length, cs.getD j 0 * x ^ j := by
  simp [toPoly, eval_finsetSum]

theorem toPoly_eq_iff {cs : List F} {p : F[X]} : toPoly cs = p ↔ ∀ j, cs.getD j 0 = p.coeff j := by
  rw [Polynomial.ext_iff]
  simp only [coeff_toPoly]

/-- Lists of one length with the same polynomial are the same. -/
theorem eq_of_toPoly_eq {cs cs' : List F} (hlen : cs.length = cs'.length) (h : toPoly cs = toPoly cs') :
    cs = cs' := by
  refine List.ext_getElem hlen fun i hi hi' => ?_
  have hcoeff := congrArg (fun p => p.coeff i) h
  simpa [coeff_toPoly, List.getD_eq_getElem?_getD, hi, hi'] using hcoeff

/-- Coefficients past the degree may be dropped. -/
theorem toPoly_take {cs : List F} {n : ℕ} (h : (toPoly cs).degree < n) : toPoly (cs.take n) = toPoly cs := by
  rw [toPoly_eq_iff]
  intro j
  rw [coeff_toPoly]
  by_cases hj : j < n
  · simp [List.getD_eq_getElem?_getD, hj]
  · have hz := (degree_lt_iff_coeff_zero _ _).mp h j (not_lt.mp hj)
    rw [coeff_toPoly] at hz
    rw [hz, List.getD_eq_default _ _ ((List.length_take_le n cs).trans (not_lt.mp hj))]

/-- Zeros may be appended. -/
theorem toPoly_append_zeros (cs : List F) (m : ℕ) : toPoly (cs ++ List.replicate m 0) = toPoly cs := by
  rw [toPoly_eq_iff]
  intro j
  rw [coeff_toPoly]
  simp only [List.getD_eq_getElem?_getD, List.getElem?_append, List.getElem?_replicate]
  by_cases hj : j < cs.length
  · simp [hj]
  · rw [if_neg hj, List.getElem?_eq_none (not_lt.mp hj)]
    split_ifs <;> rfl

theorem getD_concat (cs : List F) (c : F) (j : ℕ) :
    (cs ++ [c]).getD j 0 = cs.getD j 0 + if j = cs.length then c else 0 := by
  rcases lt_trichotomy j cs.length with hlt | rfl | hgt
  · rw [List.getD_append _ _ _ _ hlt, if_neg hlt.ne, add_zero]
  · rw [List.getD_append_right _ _ _ _ le_rfl, List.getD_eq_default cs _ le_rfl]
    simp
  · rw [List.getD_eq_default _ _ (by simpa using hgt), List.getD_eq_default cs _ hgt.le, if_neg hgt.ne',
      add_zero]

/-- One more coefficient. -/
theorem toPoly_concat (cs : List F) (c : F) : toPoly (cs ++ [c]) = toPoly cs + C c * X ^ cs.length := by
  rw [toPoly_eq_iff]
  intro j
  rw [getD_concat, coeff_add, coeff_toPoly, coeff_C_mul, coeff_X_pow, mul_ite, mul_one, mul_zero]

/-! ### Horner's scheme -/

/-- The value at `x`, from the last coefficient to the first. -/
def horner (x : F) (cs : List F) : F := cs.foldr (fun c value => c + value * x) 0

@[simp] theorem horner_cons (x c : F) (cs : List F) : horner x (c :: cs) = c + horner x cs * x := rfl

theorem horner_eq_sum (x : F) (cs : List F) :
    horner x cs = ∑ i ∈ Finset.range cs.length, x ^ i * cs.getD i 0 := by
  induction cs with
  | nil => rfl
  | cons c cs ih =>
    rw [horner_cons, ih, List.length_cons, Finset.sum_range_succ', Finset.sum_mul, add_comm]
    congr 1
    · refine Finset.sum_congr rfl fun i _ => ?_
      rw [List.getD_cons_succ, pow_succ]
      ring
    · simp

theorem eval_toPoly_eq_horner (cs : List F) (x : F) : (toPoly cs).eval x = horner x cs := by
  rw [eval_toPoly, horner_eq_sum]
  exact Finset.sum_congr rfl fun i _ => mul_comm _ _

/-- The coefficients of the quotient of `p - p(x)` by `X - x`: the intermediate values of the scheme. -/
def quotient (x : F) : List F → List F
  | [] => []
  | _ :: cs => horner x cs :: quotient x cs

/-- Division by `X - x` with remainder. -/
theorem horner_quotient (x t : F) (cs : List F) :
    horner t cs - horner x cs = horner t (quotient x cs) * (t - x) := by
  induction cs with
  | nil => simp [horner, quotient]
  | cons c cs ih =>
    have hsplit : horner t cs = horner x cs + horner t (quotient x cs) * (t - x) := by
      rw [← ih]
      ring
    calc horner t (c :: cs) - horner x (c :: cs) = horner t cs * t - horner x cs * x := by
          rw [horner_cons, horner_cons]
          ring
      _ = (horner x cs + horner t (quotient x cs) * t) * (t - x) := by
          rw [hsplit]
          ring
      _ = horner t (quotient x (c :: cs)) * (t - x) := by rw [quotient, horner_cons]

/-! ### Scaling the variable -/

/-- Multiply entry `j` by `p sʲ`. -/
def scale (s : F) : F → List F → List F
  | _, [] => []
  | p, c :: cs => c * p :: scale s (p * s) cs

theorem getD_scale (s p : F) (cs : List F) (j : ℕ) : (scale s p cs).getD j 0 = cs.getD j 0 * (p * s ^ j) := by
  induction cs generalizing p j with
  | nil => simp [scale]
  | cons c cs ih =>
    cases j with
    | zero => simp [scale]
    | succ j =>
      simp only [scale, List.getD_cons_succ, ih]
      ring

/-- The polynomial of `cs` with entry `j` multiplied by `sʲ`, at `x`, is the polynomial of `cs` at `s x`. -/
theorem toPoly_scale (s : F) (cs : List F) : toPoly (scale s 1 cs) = (toPoly cs).comp (C s * X) := by
  rw [toPoly_eq_iff]
  intro j
  rw [comp_C_mul_X_coeff, coeff_toPoly, getD_scale, one_mul]

theorem scale_append_zeros (s p : F) (cs : List F) (m : ℕ) :
    scale s p (cs ++ List.replicate m 0) = scale s p cs ++ List.replicate m 0 := by
  induction cs generalizing p with
  | nil =>
    induction m generalizing p with
    | zero => rfl
    | succ m ih =>
      have hrest : scale s (p * s) (List.replicate m 0) = List.replicate m 0 := ih (p * s)
      show 0 * p :: scale s (p * s) (List.replicate m 0) = 0 :: List.replicate m 0
      rw [hrest, zero_mul]
  | cons c cs ih => rw [List.cons_append, scale, scale, ih, List.cons_append]

/-! ### Values on the powers of `w` -/

/-- The values of `p` at `w⁰, …, wⁿ⁻¹`. -/
def evals (w : F) (n : ℕ) (p : F[X]) : List F := (List.range n).map fun i => p.eval (w ^ i)

@[simp] theorem length_evals (w : F) (n : ℕ) (p : F[X]) : (evals w n p).length = n := by simp [evals]

theorem getElem?_evals (w : F) (n : ℕ) (p : F[X]) {i : ℕ} (h : i < n) :
    (evals w n p)[i]? = some (p.eval (w ^ i)) := by
  simp [evals, h]

/-- A polynomial of degree below `n` is determined by its values on the domain. -/
theorem eq_of_evals_eq {w : F} {n : ℕ} (hw : IsPrimitiveRoot w n) {p q : F[X]} (hp : p.degree < n)
    (hq : q.degree < n) (h : evals w n p = evals w n q) : p = q := by
  have hinj : Set.InjOn (fun i : ℕ => w ^ i) (Finset.range n) := by
    intro i hi j hj hij
    exact hw.pow_inj (Finset.mem_range.mp hi) (Finset.mem_range.mp hj) hij
  refine eq_of_degrees_lt_of_eval_index_eq (Finset.range n) hinj (by simpa using hp) (by simpa using hq) ?_
  intro i hi
  have hi' := Finset.mem_range.mp hi
  have := congrArg (fun l : List F => l[i]?) h
  simpa [getElem?_evals w n _ hi'] using this

/-! ### Transforms -/

/-- `fft` and `ifft` are evaluation and interpolation on the first `n` powers of the
primitive root `w`, their inputs resized to the domain. -/
structure IsTransform (w : F) (n : ℕ) (fft ifft : List F → List F) : Prop where
  /-- The root generates a domain of `n` points. -/
  primitive : IsPrimitiveRoot w n
  /-- Evaluation of the first `n` coefficients. -/
  fft_eq : ∀ cs, fft cs = evals w n (toPoly (cs.take n))
  /-- Interpolation gives `n` coefficients, -/
  length_ifft : ∀ es, (ifft es).length = n
  /-- those of the polynomial with the given values. -/
  fft_ifft : ∀ es, fft (ifft es) = resizeTo 0 n es

namespace IsTransform

variable {w : F} {n : ℕ} {fft ifft : List F → List F} (T : IsTransform w n fft ifft)
include T

theorem length_fft (cs : List F) : (fft cs).length = n := by rw [T.fft_eq, length_evals]

theorem degree_ifft_lt (es : List F) : (toPoly (ifft es)).degree < n := by
  simpa [T.length_ifft es] using degree_toPoly_lt (ifft es)

/-- Trailing zeros do not matter. -/
theorem fft_append_zeros (cs : List F) (m : ℕ) : fft (cs ++ List.replicate m 0) = fft cs := by
  rw [T.fft_eq, T.fft_eq, List.take_append, List.take_replicate, toPoly_append_zeros]

/-- Evaluation of a polynomial that fits in the domain. -/
theorem fft_eq_evals {cs : List F} (h : (toPoly cs).degree < n) : fft cs = evals w n (toPoly cs) := by
  rw [T.fft_eq, toPoly_take h]

theorem fft_eq_evals_of {cs : List F} {p : F[X]} (hp : toPoly cs = p) (h : p.degree < n) : fft cs = evals w n p := by
  rw [T.fft_eq_evals (by rw [hp]; exact h), hp]

/-- The values of the interpolating polynomial are the list. -/
theorem evals_ifft {es : List F} (h : es.length = n) : evals w n (toPoly (ifft es)) = es := by
  rw [← T.fft_eq_evals (T.degree_ifft_lt es), T.fft_ifft, resizeTo_of_length h]

/-- Interpolation of the values of a polynomial gives it back. -/
theorem toPoly_ifft_evals {p : F[X]} (h : p.degree < n) : toPoly (ifft (evals w n p)) = p :=
  eq_of_evals_eq T.primitive (T.degree_ifft_lt _) h (T.evals_ifft (length_evals ..))

/-- Interpolation sees its input cut or filled up to the domain. -/
theorem ifft_eq_iff {es es' : List F} : ifft es = ifft es' ↔ resizeTo 0 n es = resizeTo 0 n es' := by
  constructor
  · intro h
    rw [← T.fft_ifft es, h, T.fft_ifft es']
  · intro h
    have hpoly : toPoly (ifft es) = toPoly (ifft es') := by
      apply eq_of_evals_eq T.primitive (T.degree_ifft_lt es) (T.degree_ifft_lt es')
      rw [← T.fft_eq_evals (T.degree_ifft_lt es), ← T.fft_eq_evals (T.degree_ifft_lt es'), T.fft_ifft, h,
        T.fft_ifft]
    exact eq_of_toPoly_eq (by rw [T.length_ifft, T.length_ifft]) hpoly

/-- There is one transform of a domain, and one inverse of it. -/
theorem unique {fft' ifft' : List F → List F} (T' : IsTransform w n fft' ifft') : fft = fft' ∧ ifft = ifft' := by
  have hfft : fft = fft' := funext fun cs => by rw [T.fft_eq, T'.fft_eq]
  refine ⟨hfft, funext fun es => ?_⟩
  apply eq_of_toPoly_eq (by rw [T.length_ifft, T'.length_ifft])
  apply eq_of_evals_eq T.primitive (T.degree_ifft_lt es) (T'.degree_ifft_lt es)
  rw [← T.fft_eq_evals (T.degree_ifft_lt es), ← T'.fft_eq_evals (T'.degree_ifft_lt es), T.fft_ifft, T'.fft_ifft]

end IsTransform

/-! ### The sums of the definition -/

section Sums

variable {G : Type*} [AddCommGroup G] [Module F G]

/-- Evaluation of the first `n` coefficients, scalars or not, at each power of `w`. -/
def dft (w : F) (n : ℕ) (cs : List G) : List G :=
  (List.range n).map fun i => ∑ j ∈ Finset.range n, (w ^ i) ^ j • cs.getD j 0

/-- The inverse: evaluation at the powers of `w⁻¹`, divided by `n`. -/
def idft (w : F) (n : ℕ) (es : List G) : List G := (dft w⁻¹ n es).map fun e => (n : F)⁻¹ • e

@[simp] theorem length_dft (w : F) (n : ℕ) (cs : List G) : (dft w n cs).length = n := by simp [dft]

@[simp] theorem length_idft (w : F) (n : ℕ) (es : List G) : (idft w n es).length = n := by simp [idft]

theorem getD_dft {w : F} {n i : ℕ} (h : i < n) (cs : List G) :
    (dft w n cs).getD i 0 = ∑ j ∈ Finset.range n, (w ^ i) ^ j • cs.getD j 0 := by
  simp [dft, List.getD_eq_getElem?_getD, h]

theorem getD_idft {w : F} {n i : ℕ} (h : i < n) (es : List G) :
    (idft w n es).getD i 0 = (n : F)⁻¹ • ∑ j ∈ Finset.range n, (w⁻¹ ^ i) ^ j • es.getD j 0 := by
  simp [idft, dft, List.getD_eq_getElem?_getD, h]

/-- Interpolation is linear. -/
theorem getD_idft_sum {w : F} {n : ℕ} {ι : Type*} {s : Finset ι} {a : ι → F} {rows : ι → List G} {row : List G}
    (h : ∀ j < n, row.getD j 0 = ∑ k ∈ s, a k • (rows k).getD j 0) (i : ℕ) :
    (idft w n row).getD i 0 = ∑ k ∈ s, a k • (idft w n (rows k)).getD i 0 := by
  by_cases hi : i < n
  · calc (idft w n row).getD i 0
        = ∑ j ∈ Finset.range n, ∑ k ∈ s, (a k * ((n : F)⁻¹ * (w⁻¹ ^ i) ^ j)) • (rows k).getD j 0 := by
          rw [getD_idft hi, Finset.smul_sum]
          refine Finset.sum_congr rfl fun j hj => ?_
          rw [h j (Finset.mem_range.mp hj), smul_smul, Finset.smul_sum]
          refine Finset.sum_congr rfl fun k _ => ?_
          rw [smul_smul, mul_comm]
      _ = ∑ k ∈ s, a k • (idft w n (rows k)).getD i 0 := by
          rw [Finset.sum_comm]
          refine Finset.sum_congr rfl fun k _ => ?_
          rw [getD_idft hi, Finset.smul_sum, Finset.smul_sum]
          refine Finset.sum_congr rfl fun j _ => ?_
          rw [smul_smul, smul_smul, mul_assoc]
  · -- past the domain there is nothing
    have hzero : ∀ es : List G, (idft w n es).getD i 0 = 0 := fun es =>
      List.getD_eq_default _ _ (by rw [length_idft]; omega)
    simp only [hzero, smul_zero, Finset.sum_const_zero]

/-- The factor of item `k` in item `i`, when `n` items are interpolated and evaluated on another domain. -/
def extensionCoeff (w w' : F) (n i k : ℕ) : F :=
  ∑ j ∈ Finset.range n, (w' ^ i) ^ j * ((n : F)⁻¹ * (w⁻¹ ^ j) ^ k)

/-- **Extension is one linear map**, the same for every group. -/
theorem getD_dft_idft {w w' : F} {n m i : ℕ} (hnm : n ≤ m) (h : i < m) (es : List G) :
    (dft w' m (idft w n es)).getD i 0 = ∑ k ∈ Finset.range n, extensionCoeff w w' n i k • es.getD k 0 := by
  have hsub : Finset.range n ⊆ Finset.range m := Finset.range_subset_range.mpr hnm
  rw [getD_dft h, ← Finset.sum_subset hsub]
  · calc ∑ j ∈ Finset.range n, (w' ^ i) ^ j • (idft w n es).getD j 0
        = ∑ j ∈ Finset.range n, ∑ k ∈ Finset.range n,
            ((w' ^ i) ^ j * ((n : F)⁻¹ * (w⁻¹ ^ j) ^ k)) • es.getD k 0 := by
          refine Finset.sum_congr rfl fun j hj => ?_
          rw [getD_idft (Finset.mem_range.mp hj), Finset.smul_sum, Finset.smul_sum]
          refine Finset.sum_congr rfl fun k _ => ?_
          rw [smul_smul, smul_smul, mul_assoc]
      _ = ∑ k ∈ Finset.range n, extensionCoeff w w' n i k • es.getD k 0 := by
          rw [Finset.sum_comm]
          refine Finset.sum_congr rfl fun k _ => ?_
          rw [extensionCoeff, Finset.sum_smul]
  · intro j _ hj
    rw [Finset.mem_range, not_lt] at hj
    rw [List.getD_eq_default _ _ (by rwa [length_idft]), smul_zero]

end Sums

/-- The powers of a root of unity other than 1 sum to 0. -/
theorem sum_pow_eq_zero {x : F} {n : ℕ} (hx : x ^ n = 1) (hne : x ≠ 1) : ∑ j ∈ Finset.range n, x ^ j = 0 := by
  rw [geom_sum_eq hne, hx, sub_self, zero_div]

/-- The values at `wⁱ` of the powers of `w⁻ᵏ`. -/
theorem sum_orthogonal {w : F} {n : ℕ} (hw : IsPrimitiveRoot w n) {i k : ℕ} (hi : i < n) (hk : k < n) :
    ∑ j ∈ Finset.range n, (w⁻¹ ^ j) ^ k * (w ^ i) ^ j = if i = k then (n : F) else 0 := by
  have hw0 : w ≠ 0 := hw.ne_zero (by omega)
  have hterm : ∀ j, (w⁻¹ ^ j) ^ k * (w ^ i) ^ j = (w ^ i * (w ^ k)⁻¹) ^ j := by
    intro j
    rw [mul_pow, ← inv_pow, ← pow_mul, ← pow_mul, ← pow_mul, mul_comm j k, mul_comm]
  rw [Finset.sum_congr rfl fun j _ => hterm j]
  split_ifs with hik
  · subst hik
    simp [mul_inv_cancel₀ (pow_ne_zero i hw0)]
  · refine sum_pow_eq_zero ?_ ?_
    · rw [mul_pow, inv_pow, ← pow_mul, ← pow_mul, mul_comm i, mul_comm k, pow_mul, pow_mul, hw.pow_eq_one,
        one_pow, one_pow, inv_one, mul_one]
    · intro hone
      have heq : w ^ i = w ^ k := by
        rwa [mul_inv_eq_one₀ (pow_ne_zero k hw0)] at hone
      exact hik (hw.pow_inj hi hk heq)

/-- **The sums are transforms.** -/
theorem dft_isTransform {w : F} {n : ℕ} (hw : IsPrimitiveRoot w n) (hn : (n : F) ≠ 0) :
    IsTransform w n (dft w n) (idft w n) where
  primitive := hw
  fft_eq cs := by
    refine List.map_congr_left fun i _ => ?_
    rw [eval_toPoly]
    have hsub : Finset.range (cs.take n).length ⊆ Finset.range n :=
      Finset.range_subset_range.mpr (List.length_take_le n cs)
    rw [← Finset.sum_subset hsub]
    · refine Finset.sum_congr rfl fun j hj => ?_
      have hj' := hsub hj
      rw [Finset.mem_range] at hj'
      simp [List.getD_eq_getElem?_getD, hj', mul_comm]
    · intro j hj hout
      rw [Finset.mem_range] at hj hout
      rw [List.length_take] at hout
      rw [List.getD_eq_default _ _ (by omega), smul_zero]
  length_ifft es := length_idft w n es
  fft_ifft es := by
    refine List.ext_getElem? fun i => ?_
    by_cases hi : i < n
    · have hget : ∀ {xs : List F}, xs.length = n → xs[i]? = some (xs.getD i 0) := by
        intro xs hxs
        rw [List.getD_eq_getElem?_getD, List.getElem?_eq_getElem (by omega), Option.getD_some]
      rw [hget (length_dft ..), hget (length_resizeTo ..), getD_dft hi, getD_resizeTo hi, Option.some.injEq]
      calc ∑ j ∈ Finset.range n, (w ^ i) ^ j • (idft w n es).getD j 0
          = ∑ j ∈ Finset.range n, ∑ k ∈ Finset.range n,
              es.getD k 0 * (n : F)⁻¹ * ((w⁻¹ ^ j) ^ k * (w ^ i) ^ j) := by
            refine Finset.sum_congr rfl fun j hj => ?_
            rw [getD_idft (Finset.mem_range.mp hj), smul_eq_mul, smul_eq_mul, Finset.mul_sum, Finset.mul_sum]
            refine Finset.sum_congr rfl fun k _ => ?_
            rw [smul_eq_mul]
            ring
        _ = ∑ k ∈ Finset.range n, es.getD k 0 * (n : F)⁻¹ * (if i = k then (n : F) else 0) := by
            rw [Finset.sum_comm]
            refine Finset.sum_congr rfl fun k hk => ?_
            rw [← Finset.mul_sum, sum_orthogonal hw hi (Finset.mem_range.mp hk)]
        _ = es.getD i 0 := by
            simp only [mul_ite, mul_zero]
            rw [Finset.sum_ite_eq (Finset.range n) i, if_pos (Finset.mem_range.mpr hi), mul_assoc,
              inv_mul_cancel₀ hn, mul_one]
    · rw [List.getElem?_eq_none (by rw [length_dft]; omega), List.getElem?_eq_none (by simp; omega)]

namespace IsTransform

variable {w : F} {n : ℕ} {fft ifft : List F → List F} (T : IsTransform w n fft ifft) (hn : 0 < n)
include T hn

/-- Transforms are the sums of the definition. -/
theorem eq_dft : fft = dft w n ∧ ifft = idft w n := by
  have : NeZero n := ⟨hn.ne'⟩
  exact T.unique (dft_isTransform T.primitive (T.primitive.neZero').out)

end IsTransform

end AvailCore.Fourier
