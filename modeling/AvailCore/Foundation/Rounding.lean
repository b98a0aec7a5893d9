import Mathlib.Algebra.Order.Field.Basic
import Mathlib.Tactic.Linarith
import Mathlib.Tactic.Ring

/-!
# Rounded arithmetic

Division and multiplication within a relative error of `u`, which is the unit roundoff of
a floating-point format away from underflow and overflow. They are functions: the same
operation on the same operands rounds the same way. Nothing else is known of them.

And parts of a line, each of which starts no later than the one before it ends: together
they have no gap (`exists_part_between`).
-/

namespace AvailCore

/-- Division and multiplication, within a relative error of `u`. -/
structure Rounding {K : Type} [Field K] [LinearOrder K] (u : K) where
  div : K → K → K
  mul : K → K → K
  div_error : ∀ x y, y ≠ 0 → |div x y - x / y| ≤ u * |x / y|
  mul_error : ∀ x y, |mul x y - x * y| ≤ u * |x * y|

namespace Rounding

variable {K : Type} [Field K] [LinearOrder K] [IsStrictOrderedRing K] {u : K} (R : Rounding u)

/-- The exact operations are within any error. -/
def exact (h : 0 ≤ u) : Rounding u where
  div x y := x / y
  mul x y := x * y
  div_error x y _ := by
    rw [sub_self, abs_zero]
    exact mul_nonneg h (abs_nonneg _)
  mul_error x y := by
    rw [sub_self, abs_zero]
    exact mul_nonneg h (abs_nonneg _)

/-- A relative error of 0 is none. -/
@[simp] theorem mul_zero (x : K) : R.mul x 0 = 0 := by
  have h := R.mul_error x 0
  rw [MulZeroClass.mul_zero, sub_zero, abs_zero, MulZeroClass.mul_zero] at h
  exact abs_nonpos_iff.mp h

/-- A value within a relative error of one that is not negative is not much less. -/
theorem le_of_error {x y : K} (hx : 0 ≤ x) (h : |y - x| ≤ u * |x|) : (1 - u) * x ≤ y := by
  rw [abs_of_nonneg hx] at h
  have hlow := (abs_le.mp h).1
  rw [sub_mul, one_mul]
  linarith

/-- Nor much more. -/
theorem le_of_error_upper {x y : K} (hx : 0 ≤ x) (h : |y - x| ≤ u * |x|) : y ≤ (1 + u) * x := by
  rw [abs_of_nonneg hx] at h
  have hhigh := (abs_le.mp h).2
  rw [add_mul, one_mul]
  linarith

section Product

variable (hu : u ≤ 1) {x y z : K} (hx : 0 ≤ x) (hy : 0 < y) (hz : 0 ≤ z)
include hu hx hy hz

/-- **Dividing and multiplying loses little**: the error of either, once. -/
theorem le_mul_div_mul : (1 - u) ^ 2 * (x / y * z) ≤ R.mul (R.div x y) z := by
  have hdiv : (1 - u) * (x / y) ≤ R.div x y :=
    le_of_error (div_nonneg hx hy.le) (R.div_error x y hy.ne')
  have hquot : 0 ≤ (1 - u) * (x / y) := mul_nonneg (sub_nonneg.mpr hu) (div_nonneg hx hy.le)
  have hmul : (1 - u) * (R.div x y * z) ≤ R.mul (R.div x y) z :=
    le_of_error (mul_nonneg (hquot.trans hdiv) hz) (R.mul_error _ z)
  calc (1 - u) ^ 2 * (x / y * z) = (1 - u) * ((1 - u) * (x / y) * z) := by ring
    _ ≤ (1 - u) * (R.div x y * z) := by
        apply mul_le_mul_of_nonneg_left _ (sub_nonneg.mpr hu)
        exact mul_le_mul_of_nonneg_right hdiv hz
    _ ≤ R.mul (R.div x y) z := hmul

/-- And gains little. -/
theorem mul_div_mul_le (hu' : 0 ≤ u) : R.mul (R.div x y) z ≤ (1 + u) ^ 2 * (x / y * z) := by
  have hdiv : R.div x y ≤ (1 + u) * (x / y) := le_of_error_upper (div_nonneg hx hy.le) (R.div_error x y hy.ne')
  have hlow : (1 - u) * (x / y) ≤ R.div x y := le_of_error (div_nonneg hx hy.le) (R.div_error x y hy.ne')
  have hquot : 0 ≤ (1 - u) * (x / y) := mul_nonneg (sub_nonneg.mpr hu) (div_nonneg hx hy.le)
  have hmul : R.mul (R.div x y) z ≤ (1 + u) * (R.div x y * z) :=
    le_of_error_upper (mul_nonneg (hquot.trans hlow) hz) (R.mul_error _ z)
  calc R.mul (R.div x y) z ≤ (1 + u) * (R.div x y * z) := hmul
    _ ≤ (1 + u) * ((1 + u) * (x / y) * z) := by
        apply mul_le_mul_of_nonneg_left _ (by linarith)
        exact mul_le_mul_of_nonneg_right hdiv hz
    _ = (1 + u) ^ 2 * (x / y * z) := by ring

end Product

/-- What is divided and multiplied again is not much less. -/
theorem le_mul_div (hu : u ≤ 1) {x y : K} (hx : 0 ≤ x) (hy : 0 < y) : (1 - u) ^ 2 * x ≤ R.mul (R.div x y) y := by
  have h := R.le_mul_div_mul hu hx hy hy.le
  rwa [div_mul_cancel₀ x hy.ne'] at h

end Rounding

/-- **Parts of a line have no gap** when each starts no later than the one before it ends: what is between the start of
one and the end of another is in one of them, or in one between. -/
theorem exists_part_between {start end_ : ℕ → ℕ} {first last c : ℕ} (hle : first ≤ last) (hstart : start first ≤ c)
    (hnext : ∀ n, first ≤ n → start (n + 1) ≤ end_ n) (hc : c < end_ last) :
    ∃ n, first ≤ n ∧ n ≤ last ∧ start n ≤ c ∧ c < end_ n := by
  induction last, hle using Nat.le_induction with
  | base => exact ⟨first, le_rfl, le_rfl, hstart, hc⟩
  | succ f hf ih =>
    by_cases hlt : c < end_ f
    · obtain ⟨n, hn, hle, hpart⟩ := ih hlt
      exact ⟨n, hn, hle.trans (Nat.le_succ f), hpart⟩
    · exact ⟨f + 1, hf.trans (Nat.le_succ f), le_rfl, (hnext f hf).trans (not_lt.mp hlt), hc⟩

/-- What is before the end of the last is in one of them. -/
theorem exists_part_of_lt {start end_ : ℕ → ℕ} (hfirst : start 1 = 0) (hnext : ∀ n, 1 ≤ n → start (n + 1) ≤ end_ n)
    {f c : ℕ} (hf : 1 ≤ f) (hc : c < end_ f) : ∃ n, 1 ≤ n ∧ n ≤ f ∧ start n ≤ c ∧ c < end_ n :=
  exists_part_between hf (hfirst ▸ Nat.zero_le c) hnext hc

end AvailCore
