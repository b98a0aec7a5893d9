import Mathlib.Algebra.BigOperators.Group.List.Basic
import Mathlib.Data.List.Prime
import Mathlib.NumberTheory.LucasPrimality

/-!
# Lucas's test, computed

Powers modulo `m` by repeated squaring (`powMod`), which the kernel evaluates at once
for the exponents of a 256-bit prime, and Lucas's primality test with its powers
computed so (`prime_of_powMod`). The same powers say what the order of an element of
`ZMod m` is not (`natCast_pow_eq_one_iff`).
-/

namespace AvailCore.Lucas

/-- `aⁿ` modulo `m`, for `n < 2 ^ bits`: the square of the power for half of `n`, once more
times `a` when `n` is odd. -/
def powMod (m a : ℕ) : ℕ → ℕ → ℕ
  | 0, _ => 1 % m
  | bits + 1, n =>
    let half := powMod m a bits (n / 2)
    half * half * (if n % 2 = 0 then 1 else a) % m

theorem powMod_eq (m a : ℕ) {bits n : ℕ} (h : n < 2 ^ bits) : powMod m a bits n = a ^ n % m := by
  induction bits generalizing n with
  | zero =>
    obtain rfl : n = 0 := by simpa using h
    rw [powMod, pow_zero]
  | succ bits ih =>
    have hhalf : powMod m a bits (n / 2) = a ^ (n / 2) % m := ih (by omega)
    have hn : a ^ n = a ^ (n / 2) * a ^ (n / 2) * (if n % 2 = 0 then 1 else a) := by
      rw [← pow_add]
      split_ifs with heven
      · rw [mul_one]
        congr 1
        omega
      · rw [← pow_succ]
        congr 1
        omega
    rw [powMod, hhalf, hn]
    exact (((Nat.mod_modEq _ m).mul (Nat.mod_modEq _ m)).mul_right _)

/-- An element of `ZMod m` has power 1 when the computed power is 1. -/
theorem natCast_pow_eq_one_iff {m : ℕ} (hm : 2 ≤ m) (a : ℕ) {bits n : ℕ} (h : n < 2 ^ bits) :
    (a : ZMod m) ^ n = 1 ↔ powMod m a bits n = 1 := by
  rw [powMod_eq m a h, ← Nat.cast_pow, ← Nat.cast_one, ZMod.natCast_eq_natCast_iff', Nat.mod_eq_of_lt hm]

/-- **Lucas's test**: `a` has order `p - 1`, whose prime factors are among `qs`. -/
theorem prime_of_powMod {p a bits k : ℕ} {qs : List ℕ} (hp : 2 ≤ p) (hbits : p ≤ 2 ^ bits)
    (hprime : ∀ q ∈ qs, Prime q) (hqs : p - 1 ∣ qs.prod ^ k)
    (hfull : powMod p a bits (p - 1) = 1) (hpart : ∀ q ∈ qs, powMod p a bits ((p - 1) / q) ≠ 1) :
    p.Prime := by
  have hone : ∀ {n}, n ≤ p - 1 → ((a : ZMod p) ^ n = 1 ↔ powMod p a bits n = 1) := fun hn =>
    natCast_pow_eq_one_iff hp a (by omega)
  refine lucas_primality p (a : ZMod p) ((hone le_rfl).mpr hfull) ?_
  intro q hq hdvd hpow
  have hmem : q ∈ qs := mem_list_primes_of_dvd_prod hq.prime hprime
    (hq.dvd_of_dvd_pow (hdvd.trans hqs))
  exact hpart q hmem ((hone (Nat.div_le_self _ _)).mp hpow)

end AvailCore.Lucas
