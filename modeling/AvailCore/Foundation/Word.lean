import AvailCore.Foundation.Run
import Mathlib.Data.Nat.Log
import Mathlib.Data.UInt
import Mathlib.Tactic.Ring

/-!
# Machine integers

The checked operations on `u32`, and the operations on a 64-bit `usize`, which is kept
as a natural number below `usizeLimit`: each says what its result is, or that there is
none. The plain operators of `u32` depend on how the program is built (`Build`). And
the little-endian bytes of a number, which a number below `256ᵏ` has `k` of.
-/

namespace AvailCore

/-! ### `u32` -/

/-- `u32::MAX`. -/
def u32Max : UInt32 := 4294967295

@[simp] theorem toNat_u32Max : u32Max.toNat = 2 ^ 32 - 1 := rfl

/-- `u32::try_from(n)`. -/
def u32TryFrom (n : ℕ) : Option UInt32 := if n < 2 ^ 32 then some (UInt32.ofNat n) else none

/-- `a.checked_add(b)`. -/
def checkedAdd (a b : UInt32) : Option UInt32 := u32TryFrom (a.toNat + b.toNat)

/-- `a.checked_mul(b)`. -/
def checkedMul (a b : UInt32) : Option UInt32 := u32TryFrom (a.toNat * b.toNat)

@[simp] theorem toNat_ofNat_of_lt {n : ℕ} (h : n < 2 ^ 32) : (UInt32.ofNat n).toNat = n := by
  rw [UInt32.toNat_ofNat', Nat.mod_eq_of_lt h]

theorem u32TryFrom_eq_some {n : ℕ} {x : UInt32} : u32TryFrom n = some x ↔ x.toNat = n := by
  unfold u32TryFrom
  split_ifs with h
  · rw [Option.some.injEq, ← UInt32.toNat_inj, toNat_ofNat_of_lt h, eq_comm]
  · simp only [false_iff]
    rintro rfl
    exact h x.toNat_lt

theorem checkedAdd_eq_some {a b x : UInt32} : checkedAdd a b = some x ↔ x.toNat = a.toNat + b.toNat :=
  u32TryFrom_eq_some

theorem checkedMul_eq_some {a b x : UInt32} : checkedMul a b = some x ↔ x.toNat = a.toNat * b.toNat :=
  u32TryFrom_eq_some

/-- `x.saturating_add(y)` -/
def saturatingAdd32 (x y : UInt32) : UInt32 := (checkedAdd x y).getD u32Max

theorem toNat_saturatingAdd32 {x y : UInt32} (h : x.toNat + y.toNat < 2 ^ 32) :
    (saturatingAdd32 x y).toNat = x.toNat + y.toNat := by
  rw [saturatingAdd32, checkedAdd, u32TryFrom, if_pos h, Option.getD_some, toNat_ofNat_of_lt h]

theorem saturatingAdd32_eq_max {x y : UInt32} (h : 2 ^ 32 - 1 ≤ x.toNat + y.toNat) :
    saturatingAdd32 x y = u32Max := by
  rw [saturatingAdd32, checkedAdd, u32TryFrom]
  split_ifs with hlt
  · rw [Option.getD_some, ← UInt32.toNat_inj, toNat_ofNat_of_lt hlt, toNat_u32Max]
    omega
  · rfl

/-- `x.saturating_sub(y)` -/
def saturatingSub32 (x y : UInt32) : UInt32 := if y ≤ x then x - y else 0

theorem toNat_pos_of_ne_zero {x : UInt32} (h : x ≠ 0) : 0 < x.toNat :=
  UInt32.lt_iff_toNat_lt.mp (UInt32.pos_iff_ne_zero.mpr h)

theorem toNat_sub_one {x : UInt32} (h : x ≠ 0) : (x - 1).toNat = x.toNat - 1 :=
  UInt32.toNat_sub_of_le _ _ (UInt32.le_iff_toNat_le.mpr (toNat_pos_of_ne_zero h))

/-- How a program is built. -/
inductive Build where
  /-- Overflow is a panic, and debug assertions are checked. -/
  | checked
  /-- Overflow goes on with the value modulo `2³²`. -/
  | wrapping
  deriving DecidableEq, Repr

/-- The exact result of an operator, if there is one, and else what the build makes of it. -/
def Build.arith {ε : Type} (b : Build) (exact_ : Option UInt32) (wrapped : UInt32) : Run ε UInt32 :=
  match exact_, b with
  | some x, _ => .ok x
  | none, .checked => .error .panic
  | none, .wrapping => .ok wrapped

/-- `x - y` -/
def Build.sub {ε : Type} (b : Build) (x y : UInt32) : Run ε UInt32 :=
  b.arith (if y ≤ x then some (x - y) else none) (x - y)

/-- `x * y` -/
def Build.mul {ε : Type} (b : Build) (x y : UInt32) : Run ε UInt32 := b.arith (checkedMul x y) (x * y)

/-- `x + y` -/
def Build.add {ε : Type} (b : Build) (x y : UInt32) : Run ε UInt32 := b.arith (checkedAdd x y) (x + y)

theorem Build.add_eq_ok (ε : Type) (b : Build) {x y : UInt32} (h : x.toNat + y.toNat < 2 ^ 32) :
    (b.add x y : Run ε UInt32) = .ok (UInt32.ofNat (x.toNat + y.toNat)) := by
  rw [Build.add, checkedAdd, u32TryFrom, if_pos h]
  rfl

theorem Build.mul_eq_ok (ε : Type) (b : Build) {x y : UInt32} (h : x.toNat * y.toNat < 2 ^ 32) :
    (b.mul x y : Run ε UInt32) = .ok (UInt32.ofNat (x.toNat * y.toNat)) := by
  rw [Build.mul, checkedMul, u32TryFrom, if_pos h]
  rfl

/-- A product that is there is the wrapped one. -/
theorem Build.eq_of_mul_eq_ok {ε : Type} {b : Build} {x y z : UInt32} (h : (b.mul x y : Run ε UInt32) = .ok z) :
    z = x * y := by
  unfold Build.mul at h
  cases hmul : checkedMul x y with
  | some w =>
    rw [hmul] at h
    cases h
    rw [← UInt32.toNat_inj, UInt32.toNat_mul, ← checkedMul_eq_some.mp hmul, Nat.mod_eq_of_lt z.toNat_lt]
  | none =>
    rw [hmul] at h
    cases b with
    | checked => cases h
    | wrapping =>
      cases h
      rfl

theorem Build.exists_mul_iff {ε : Type} {b : Build} {x y : UInt32} :
    (∃ z, (b.mul x y : Run ε UInt32) = .ok z) ↔ (b = .checked → x.toNat * y.toNat < 2 ^ 32) := by
  unfold Build.mul
  cases hmul : checkedMul x y with
  | some z =>
    have hlt : x.toNat * y.toNat < 2 ^ 32 := checkedMul_eq_some.mp hmul ▸ z.toNat_lt
    exact iff_of_true ⟨z, rfl⟩ fun _ => hlt
  | none =>
    have hle : ¬ x.toNat * y.toNat < 2 ^ 32 := by
      intro hlt
      rw [checkedMul, u32TryFrom, if_pos hlt] at hmul
      cases hmul
    cases b with
    | checked =>
      refine iff_of_false ?_ fun h => hle (h rfl)
      intro h
      obtain ⟨z, hz⟩ := h
      cases hz
    | wrapping =>
      refine iff_of_true ⟨x * y, rfl⟩ fun hb => ?_
      cases hb

theorem Build.sub_of_le {ε : Type} (b : Build) {x y : UInt32} (h : y ≤ x) :
    (b.sub x y : Run ε UInt32) = .ok (x - y) := by
  rw [Build.sub, if_pos h]
  rfl

theorem Build.sub_eq_ok {ε : Type} {b : Build} {x y : UInt32} (h : b = .checked → y ≤ x) :
    (b.sub x y : Run ε UInt32) = .ok (x - y) := by
  cases b with
  | checked => exact Build.sub_of_le .checked (h rfl)
  | wrapping =>
    unfold Build.sub
    split_ifs <;> rfl

theorem Build.eq_of_sub_eq_ok {ε : Type} {b : Build} {x y z : UInt32} (h : (b.sub x y : Run ε UInt32) = .ok z) :
    z = x - y ∧ (b = .checked → y ≤ x) := by
  unfold Build.sub at h
  split_ifs at h with hle
  · cases h
    exact ⟨rfl, fun _ => hle⟩
  · cases b with
    | checked => cases h
    | wrapping =>
      cases h
      exact ⟨rfl, fun hb => by cases hb⟩

@[simp] theorem Build.returns_sub {ε : Type} {b : Build} {x y : UInt32} :
    Run.Returns (b.sub x y : Run ε UInt32) ↔ (b = .checked → y ≤ x) := by
  unfold Build.sub
  split_ifs with h
  · simp [Build.arith, h]
  · cases b with
    | checked => simp [Build.arith, h]
    | wrapping => simp [Build.arith]

/-! ### `usize` -/

/-- One more than `usize::MAX`. -/
def usizeLimit : ℕ := 2 ^ 64

/-- The least power of two not below `n`. -/
def nextPowerOfTwo (n : ℕ) : ℕ := 2 ^ Nat.clog 2 n

/-- `n.is_power_of_two()` -/
def isPowerOfTwo (n : ℕ) : Bool := n == nextPowerOfTwo n

/-- `n.checked_next_power_of_two()`. -/
def checkedNextPowerOfTwo (n : ℕ) : Option ℕ :=
  if nextPowerOfTwo n < usizeLimit then some (nextPowerOfTwo n) else none

/-- `a.checked_add(b)`, on `usize`. -/
def usizeCheckedAdd (a b : ℕ) : Option ℕ := if a + b < usizeLimit then some (a + b) else none

/-- `a.saturating_add(b)`. -/
def saturatingAdd (a b : ℕ) : ℕ := min (a + b) (usizeLimit - 1)

/-- `a.saturating_mul(b)`. -/
def saturatingMul (a b : ℕ) : ℕ := min (a * b) (usizeLimit - 1)

theorem le_nextPowerOfTwo (n : ℕ) : n ≤ nextPowerOfTwo n := Nat.le_pow_clog (by decide) n

theorem nextPowerOfTwo_pos (n : ℕ) : 0 < nextPowerOfTwo n := Nat.two_pow_pos _

@[simp] theorem nextPowerOfTwo_two_pow (k : ℕ) : nextPowerOfTwo (2 ^ k) = 2 ^ k := by
  rw [nextPowerOfTwo, Nat.clog_pow 2 k (by decide)]

@[simp] theorem isPowerOfTwo_two_pow (k : ℕ) : isPowerOfTwo (2 ^ k) = true := by
  rw [isPowerOfTwo, nextPowerOfTwo_two_pow, beq_self_eq_true]

theorem nextPowerOfTwo_le_iff {n k : ℕ} : nextPowerOfTwo n ≤ 2 ^ k ↔ n ≤ 2 ^ k := by
  rw [nextPowerOfTwo, Nat.pow_le_pow_iff_right (by decide), Nat.clog_le_iff_le_pow (by decide)]

theorem nextPowerOfTwo_two_pow_mul (k : ℕ) {n : ℕ} (hn : 0 < n) :
    nextPowerOfTwo (2 ^ k * n) = 2 ^ k * nextPowerOfTwo n := by
  have hclog : Nat.clog 2 (2 ^ k * n) = k + Nat.clog 2 n := by
    refine eq_of_forall_ge_iff fun j => ?_
    rw [Nat.clog_le_iff_le_pow (by decide)]
    constructor
    · intro h
      have hle : k ≤ j := by
        rw [← Nat.pow_le_pow_iff_right (show 1 < 2 by decide)]
        exact (Nat.le_mul_of_pos_right _ hn).trans h
      obtain ⟨i, rfl⟩ := Nat.exists_eq_add_of_le hle
      rw [pow_add] at h
      exact Nat.add_le_add_left (Nat.clog_le_of_le_pow (Nat.le_of_mul_le_mul_left h (Nat.two_pow_pos k))) k
    · intro h
      obtain ⟨i, rfl⟩ := Nat.exists_eq_add_of_le (Nat.le_of_add_right_le h)
      rw [pow_add]
      exact Nat.mul_le_mul_left _ ((Nat.clog_le_iff_le_pow (by decide)).mp (Nat.le_of_add_le_add_left h))
  rw [nextPowerOfTwo, hclog, pow_add, nextPowerOfTwo]

/-- The quotient, rounded up, by a power of two. -/
theorem two_pow_mul_nextPowerOfTwo_div {k n : ℕ} (h : 2 ^ k ≤ n) :
    2 ^ k * nextPowerOfTwo ((n + 2 ^ k - 1) / 2 ^ k) = nextPowerOfTwo n := by
  have hpos := Nat.two_pow_pos k
  have hclog : k + Nat.clog 2 ((n + 2 ^ k - 1) / 2 ^ k) = Nat.clog 2 n := by
    refine eq_of_forall_ge_iff fun j => ?_
    rw [Nat.clog_le_iff_le_pow (by decide)]
    constructor
    · intro hj
      obtain ⟨i, rfl⟩ := Nat.exists_eq_add_of_le (Nat.le_of_add_right_le hj)
      have hq := (Nat.clog_le_iff_le_pow (by decide)).mp (Nat.le_of_add_le_add_left hj)
      have hlt := (Nat.div_lt_iff_lt_mul hpos).mp (Nat.lt_succ_of_le hq)
      rw [Nat.succ_mul] at hlt
      rw [pow_add, Nat.mul_comm]
      omega
    · intro hj
      have hle : k ≤ j := (Nat.pow_le_pow_iff_right (by decide)).mp (h.trans hj)
      obtain ⟨i, rfl⟩ := Nat.exists_eq_add_of_le hle
      rw [pow_add, Nat.mul_comm] at hj
      refine Nat.add_le_add_left (Nat.clog_le_of_le_pow (Nat.le_of_lt_succ ?_)) k
      rw [Nat.div_lt_iff_lt_mul hpos, Nat.succ_mul]
      omega
  rw [nextPowerOfTwo, nextPowerOfTwo, ← pow_add, hclog]

theorem exists_of_isPowerOfTwo {n : ℕ} (h : isPowerOfTwo n = true) : ∃ k, n = 2 ^ k := ⟨_, beq_iff_eq.mp h⟩

theorem checkedNextPowerOfTwo_eq_some {n p : ℕ} (h : checkedNextPowerOfTwo n = some p) :
    p = nextPowerOfTwo n ∧ p < usizeLimit := by
  unfold checkedNextPowerOfTwo at h
  split_ifs at h with hlt
  cases h
  exact ⟨rfl, hlt⟩

theorem checkedNextPowerOfTwo_of_le {n : ℕ} (h : n ≤ 2 ^ 63) : checkedNextPowerOfTwo n = some (nextPowerOfTwo n) := by
  have hlt : nextPowerOfTwo n < usizeLimit := lt_of_le_of_lt (nextPowerOfTwo_le_iff.mpr h) (by decide)
  rw [checkedNextPowerOfTwo, if_pos hlt]

/-! ### Little-endian bytes -/

/-- The lowest `k` bytes of `n`, lowest first. -/
def leBytes : ℕ → ℕ → List UInt8
  | 0, _ => []
  | k + 1, n => UInt8.ofNat n :: leBytes k (n / 256)

/-- The number with the given bytes. -/
def leValue : List UInt8 → ℕ
  | [] => 0
  | b :: bs => b.toNat + 256 * leValue bs

@[simp] theorem length_leBytes (k n : ℕ) : (leBytes k n).length = k := by
  induction k generalizing n with
  | zero => rfl
  | succ k ih => rw [leBytes, List.length_cons, ih]

theorem leValue_leBytes {k n : ℕ} (h : n < 256 ^ k) : leValue (leBytes k n) = n := by
  induction k generalizing n with
  | zero =>
    obtain rfl : n = 0 := by simpa using h
    rfl
  | succ k ih =>
    have hdiv : n / 256 < 256 ^ k := by
      rw [pow_succ] at h
      omega
    rw [leBytes, leValue, ih hdiv, UInt8.toNat_ofNat']
    omega

theorem leBytes_leValue {k : ℕ} {bs : List UInt8} (h : bs.length = k) : leBytes k (leValue bs) = bs := by
  induction bs generalizing k with
  | nil =>
    subst h
    rfl
  | cons b bs ih =>
    subst h
    have hb : b.toNat < 256 := b.toNat_lt
    rw [List.length_cons, leBytes, leValue, show (b.toNat + 256 * leValue bs) / 256 = leValue bs by omega,
      ih rfl]
    congr 1
    rw [← UInt8.toNat_inj, UInt8.toNat_ofNat']
    omega

theorem leValue_append (xs ys : List UInt8) : leValue (xs ++ ys) = leValue xs + 256 ^ xs.length * leValue ys := by
  induction xs with
  | nil => simp [leValue]
  | cons b xs ih =>
    rw [List.cons_append, leValue, leValue, ih, List.length_cons, pow_succ]
    ring

theorem leValue_replicate_zero (n : ℕ) : leValue (List.replicate n 0) = 0 := by
  induction n with
  | zero => rfl
  | succ n ih =>
    rw [List.replicate_succ, leValue, ih]
    rfl

theorem leValue_lt (bs : List UInt8) : leValue bs < 256 ^ bs.length := by
  induction bs with
  | nil => simp [leValue]
  | cons b bs ih =>
    have hb : b.toNat < 256 := b.toNat_lt
    rw [leValue, List.length_cons, pow_succ]
    omega

/-! ### The bytes of machine integers -/

/-- `x.to_le_bytes()` -/
def u32ToLeBytes (x : UInt32) : List UInt8 := leBytes 4 x.toNat

/-- `u32::from_le_bytes(bytes)`, of four bytes. -/
def u32FromLeBytes (bytes : List UInt8) : Option UInt32 :=
  if bytes.length = 4 then some (UInt32.ofNat (leValue bytes)) else none

/-- `x.to_be_bytes()` -/
def u64ToBeBytes (x : UInt64) : List UInt8 := (leBytes 8 x.toNat).reverse

/-- `u64::from_be_bytes(bytes)`, of eight bytes. -/
def u64FromBeBytes (bytes : List UInt8) : Option UInt64 :=
  if bytes.length = 8 then some (UInt64.ofNat (leValue bytes.reverse)) else none

@[simp] theorem length_u32ToLeBytes (x : UInt32) : (u32ToLeBytes x).length = 4 := length_leBytes ..

@[simp] theorem length_u64ToBeBytes (x : UInt64) : (u64ToBeBytes x).length = 8 := by
  rw [u64ToBeBytes, List.length_reverse, length_leBytes]

theorem u32FromLeBytes_eq_some {bytes : List UInt8} {x : UInt32} :
    u32FromLeBytes bytes = some x ↔ bytes = u32ToLeBytes x := by
  constructor
  · intro h
    unfold u32FromLeBytes at h
    split_ifs at h with hlen
    cases h
    have hlt : leValue bytes < 2 ^ 32 := by
      have := leValue_lt bytes
      rwa [hlen] at this
    rw [u32ToLeBytes, toNat_ofNat_of_lt hlt, leBytes_leValue hlen]
  · rintro rfl
    rw [u32FromLeBytes, if_pos (length_u32ToLeBytes x), u32ToLeBytes, leValue_leBytes x.toNat_lt]
    simp

/-- Any four bytes are those of a number. -/
theorem exists_u32ToLeBytes {bytes : List UInt8} (h : bytes.length = 4) : ∃ x, bytes = u32ToLeBytes x :=
  ⟨UInt32.ofNat (leValue bytes), u32FromLeBytes_eq_some.mp (if_pos h)⟩

theorem u64FromBeBytes_eq_some {bytes : List UInt8} {x : UInt64} :
    u64FromBeBytes bytes = some x ↔ bytes = u64ToBeBytes x := by
  constructor
  · intro h
    unfold u64FromBeBytes at h
    split_ifs at h with hlen
    cases h
    have hlen' : bytes.reverse.length = 8 := by rw [List.length_reverse, hlen]
    have hlt : leValue bytes.reverse < 2 ^ 64 := by
      have := leValue_lt bytes.reverse
      rwa [hlen'] at this
    rw [u64ToBeBytes, UInt64.toNat_ofNat', Nat.mod_eq_of_lt hlt, leBytes_leValue hlen', List.reverse_reverse]
  · rintro rfl
    rw [u64FromBeBytes, if_pos (length_u64ToBeBytes x), u64ToBeBytes, List.reverse_reverse,
      leValue_leBytes x.toNat_lt]
    simp

/-- Any eight bytes are those of a number. -/
theorem exists_u64ToBeBytes {bytes : List UInt8} (h : bytes.length = 8) : ∃ x, bytes = u64ToBeBytes x :=
  ⟨UInt64.ofNat (leValue bytes.reverse), u64FromBeBytes_eq_some.mp (if_pos h)⟩

end AvailCore
