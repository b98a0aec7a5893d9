import AvailCore.Foundation.Lucas
import Mathlib.Algebra.Field.ZMod
import Mathlib.FieldTheory.Finite.Basic
import Mathlib.RingTheory.RootsOfUnity.PrimitiveRoots
import Mathlib.Tactic.NormNum.Prime

/-!
# The scalar field of BLS12-381

`ArkScalar` is the field of integers modulo the prime `r` that is the order of
BLS12-381's groups. What the development uses of it: `r - 1` is an odd multiple of
`2³²`, so there is a primitive `2ᵏ`-th root of unity for every `k ≤ 32`
(`rootOfUnity`), and 5, by which the erasure decoding shifts its domain, is not one of
them (`five_pow_ne_one`).
-/

namespace AvailCore

open Lucas

/-- The order of the scalar field, `r`. -/
def scalarModulus : ℕ := 0x73eda753299d7d483339d80809a1d80553bda402fffe5bfeffffffff00000001

theorem two_le_scalarModulus : 2 ≤ scalarModulus := by decide

theorem scalarModulus_le : scalarModulus ≤ 2 ^ 255 := by decide

/-- The prime factors of `r - 1`. -/
def scalarFactors : List ℕ :=
  [2, 3, 11, 19, 10177, 125527, 859267, 906349, 2508409, 2529403, 52437899, 254760293]

theorem prime_of_mem_scalarFactors : ∀ q ∈ scalarFactors, Prime q := by
  simp only [scalarFactors, List.forall_mem_cons, ← Nat.prime_iff]
  norm_num

/-- 7 generates the multiplicative group. -/
theorem scalarModulus_prime : scalarModulus.Prime :=
  prime_of_powMod (a := 7) (k := 32) two_le_scalarModulus scalarModulus_le
    prime_of_mem_scalarFactors (by decide +kernel) (by decide +kernel) (by decide +kernel)

instance : Fact scalarModulus.Prime := ⟨scalarModulus_prime⟩

/-- `ark_bls12_381::Fr` -/
def ArkScalar : Type := ZMod scalarModulus

namespace ArkScalar

instance : Field ArkScalar := inferInstanceAs (Field (ZMod scalarModulus))

instance : DecidableEq ArkScalar := inferInstanceAs (DecidableEq (ZMod scalarModulus))

instance : Inhabited ArkScalar := ⟨0⟩

/-- A power of a number is 1 when the computed one is. -/
theorem natCast_pow_eq_one_iff (a : ℕ) {n : ℕ} (h : n < 2 ^ 255) :
    (a : ArkScalar) ^ n = 1 ↔ powMod scalarModulus a 255 n = 1 :=
  Lucas.natCast_pow_eq_one_iff two_le_scalarModulus a h

/-- A number below `r` other than 0 is not 0. -/
theorem natCast_ne_zero {a : ℕ} (h0 : 0 < a) (h : a < scalarModulus) : (a : ArkScalar) ≠ 0 := by
  intro hz
  have hdvd := (ZMod.natCast_eq_zero_iff a scalarModulus).mp hz
  exact absurd (Nat.le_of_dvd h0 hdvd) (not_le.mpr h)

/-! ### Roots of unity -/

/-- `Fr::TWO_ADIC_ROOT_OF_UNITY`: the generator 7 to the power `(r - 1) / 2³²`. -/
def twoAdicRoot : ArkScalar :=
  ((10238227357739495823651030575849232062558860180284477541189508159991286009131 : ℕ) : ArkScalar)

theorem orderOf_twoAdicRoot : orderOf twoAdicRoot = 2 ^ 32 := by
  refine orderOf_eq_prime_pow ?_ ?_
  · rw [twoAdicRoot, natCast_pow_eq_one_iff _ (by decide)]
    decide +kernel
  · rw [twoAdicRoot, natCast_pow_eq_one_iff _ (by decide)]
    decide +kernel

/-- `Fr::get_root_of_unity(2ᵏ)`: the two-adic root, squared `32 - k` times. -/
def rootOfUnity (k : ℕ) : ArkScalar := twoAdicRoot ^ 2 ^ (32 - k)

theorem rootOfUnity_primitive {k : ℕ} (h : k ≤ 32) : IsPrimitiveRoot (rootOfUnity k) (2 ^ k) := by
  have hroot : IsPrimitiveRoot twoAdicRoot (2 ^ 32) := by
    rw [← orderOf_twoAdicRoot]
    exact IsPrimitiveRoot.orderOf twoAdicRoot
  apply hroot.pow (Nat.two_pow_pos 32)
  rw [← pow_add]
  congr 1
  omega

/-! ### The shift factor -/

theorem five_ne_zero : (5 : ArkScalar) ≠ 0 := by
  exact_mod_cast natCast_ne_zero (a := 5) (by decide) (by decide)

/-- The order of an element is a divisor of `r - 1`, whose powers of two divide `2³²`. -/
theorem orderOf_dvd_of_pow_two_pow {x : ArkScalar} {k : ℕ} (h : x ^ 2 ^ k = 1) : orderOf x ∣ 2 ^ 32 := by
  have hx : x ≠ 0 := by
    rintro rfl
    rw [zero_pow (Nat.two_pow_pos k).ne'] at h
    exact zero_ne_one h
  obtain ⟨j, -, hj⟩ := (Nat.dvd_prime_pow Nat.prime_two).mp (orderOf_dvd_of_pow_eq_one h)
  have hfermat : x ^ (scalarModulus - 1) = 1 := @ZMod.pow_card_sub_one_eq_one scalarModulus _ x hx
  have hdvd : 2 ^ j ∣ scalarModulus - 1 := hj ▸ orderOf_dvd_of_pow_eq_one hfermat
  have hle : j ≤ 32 := by
    by_contra hgt
    have h33 : 2 ^ 33 ∣ scalarModulus - 1 := (pow_dvd_pow 2 (by omega)).trans hdvd
    exact absurd h33 (by decide)
  rw [hj]
  exact pow_dvd_pow 2 hle

/-- **5 is not a root of unity of the order of a domain.** -/
theorem five_pow_ne_one (k : ℕ) : (5 : ArkScalar) ^ 2 ^ k ≠ 1 := by
  intro h
  have h32 : ((5 : ℕ) : ArkScalar) ^ 2 ^ 32 = 1 := by
    rw [Nat.cast_ofNat]
    exact orderOf_dvd_iff_pow_eq_one.mp (orderOf_dvd_of_pow_two_pow h)
  rw [natCast_pow_eq_one_iff _ (by decide)] at h32
  exact absurd h32 (by decide +kernel)

end ArkScalar

end AvailCore
