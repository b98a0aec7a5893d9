import AvailCore.Foundation.Fourier

/-!
# Decoding from part of the values

A polynomial of degree below `n`, known only at some of the first `N` powers of `w`,
is found by way of the polynomial that vanishes at the others: their product has
degree below `N` and is known everywhere, and it is divided again where the vanishing
polynomial has no zero, on the powers of `w` shifted by an `s` that is no `N`-th root
of unity.

The lemmas are the three facts this rests on: where the vanishing polynomial is zero
(`eval_vanishing_eq_zero_iff`), that it is nowhere zero on the shifted powers
(`eval_vanishing_shift_ne_zero`), and that the product fits in the domain
(`degree_mul_vanishing_lt`).
-/

namespace AvailCore.ErasureCode

open Polynomial AvailCore.Fourier

variable {F : Type*} [Field F]

/-- The monic polynomial whose zeros are the powers `wᵛ`, for `v` in `vs`. -/
noncomputable def vanishing (w : F) (vs : List ℕ) : F[X] := (vs.map fun v => X - C (w ^ v)).prod

@[simp] theorem vanishing_nil (w : F) : vanishing w [] = 1 := rfl

theorem vanishing_concat (w : F) (vs : List ℕ) (v : ℕ) :
    vanishing w (vs ++ [v]) = vanishing w vs * (X - C (w ^ v)) := by
  simp [vanishing]

theorem degree_vanishing (w : F) (vs : List ℕ) : (vanishing w vs).degree = vs.length := by
  induction vs using List.reverseRecOn with
  | nil => simp
  | append_singleton vs v ih => rw [vanishing_concat, degree_mul, ih, degree_X_sub_C, List.length_append]; rfl

theorem degree_vanishing_lt {w : F} {vs : List ℕ} {n : ℕ} (h : vs.length < n) : (vanishing w vs).degree < n := by
  rw [degree_vanishing]
  exact_mod_cast h

theorem eval_vanishing (w x : F) (vs : List ℕ) :
    (vanishing w vs).eval x = (vs.map fun v => x - w ^ v).prod := by
  induction vs with
  | nil => simp
  | cons v vs ih =>
    rw [vanishing, List.map_cons, List.prod_cons, eval_mul, ← vanishing, ih]
    simp

theorem eval_vanishing_eq_zero {w x : F} {vs : List ℕ} :
    (vanishing w vs).eval x = 0 ↔ ∃ v ∈ vs, x = w ^ v := by
  simp only [eval_vanishing, List.prod_eq_zero_iff, List.mem_map, sub_eq_zero]

/-- On the domain, the zeros are the listed powers. -/
theorem eval_vanishing_eq_zero_iff {w : F} {N : ℕ} (hw : IsPrimitiveRoot w N) {vs : List ℕ}
    (hvs : ∀ v ∈ vs, v < N) {i : ℕ} (hi : i < N) : (vanishing w vs).eval (w ^ i) = 0 ↔ i ∈ vs := by
  rw [eval_vanishing_eq_zero]
  constructor
  · intro h
    obtain ⟨v, hv, heq⟩ := h
    rwa [hw.pow_inj hi (hvs v hv) heq]
  · intro h
    exact ⟨i, h, rfl⟩

/-- On the domain shifted by `s`, there is no zero. -/
theorem eval_vanishing_shift_ne_zero {w s : F} {N : ℕ} (hw : w ^ N = 1) (hs : s ^ N ≠ 1) (vs : List ℕ)
    (i : ℕ) : (vanishing w vs).eval (s * w ^ i) ≠ 0 := by
  intro h
  obtain ⟨v, -, heq⟩ := eval_vanishing_eq_zero.mp h
  have hroot : ∀ j, (w ^ j) ^ N = 1 := by
    intro j
    rw [← pow_mul, mul_comm, pow_mul, hw, one_pow]
  have hpow := congrArg (· ^ N) heq
  simp only [mul_pow, hroot, mul_one] at hpow
  exact hs hpow

/-- A polynomial of degree below `n`, times the polynomial of the missing values, fits in the domain. -/
theorem degree_mul_vanishing_lt {w : F} {p : F[X]} {vs : List ℕ} {n N : ℕ} (hp : p.degree < n)
    (h : n + vs.length ≤ N) : (p * vanishing w vs).degree < N := by
  by_cases hp0 : p = 0
  · rw [hp0, zero_mul, degree_zero]
    exact WithBot.bot_lt_coe N
  · rw [degree_mul, degree_vanishing, degree_eq_natDegree hp0]
    have hlt : p.natDegree < n := (natDegree_lt_iff_degree_lt hp0).mpr hp
    exact_mod_cast (show p.natDegree + vs.length < N by omega)

/-- Scaling the variable keeps the degree bound. -/
theorem degree_comp_scale_lt {p : F[X]} {n : ℕ} (h : p.degree < n) (s : F) :
    (p.comp (C s * X)).degree < n := by
  rw [degree_lt_iff_coeff_zero] at h ⊢
  intro m hm
  rw [comp_C_mul_X_coeff, h m hm, zero_mul]

theorem eval_comp_scale (p : F[X]) (s x : F) : (p.comp (C s * X)).eval x = p.eval (s * x) := by
  simp

/-- Scaling by `s` and then by its inverse changes nothing. -/
theorem comp_scale_comp_scale {s t : F} (h : s * t = 1) (p : F[X]) :
    (p.comp (C s * X)).comp (C t * X) = p := by
  rw [comp_assoc, mul_comp, C_comp, X_comp, ← mul_assoc, ← C_mul, h, C_1, one_mul, comp_X]

end AvailCore.ErasureCode
