import AvailCore.Foundation.Codec
import AvailCore.Foundation.Word
import Mathlib.Data.Vector.Defs

/-!
# SCALE: arrays, enumerations and wide compact integers

More of the formats that SCALE documents: arrays of bytes, `Option<T>`, the variants of an
enumeration after a byte with their index, vectors with a bound, and `Compact<T>` of the
other unsigned integers. A compact integer of 2³⁰ or more is written in as many bytes as
it needs, after a byte with their number.

Each format is read in one way only (`Codec.Canonical`), if the formats that it is made of
are.
-/

namespace AvailCore

namespace Codec

variable {α β : Type}

theorem Canonical.iso {c : Codec α} (hc : c.Canonical) {f : α → β} {g : β → α} {hfg : ∀ b, f (g b) = b}
    (hgf : ∀ a, g (f a) = a) : (c.iso f g hfg).Canonical := by
  intro b bs rest h
  simp only [Codec.iso, Option.bind_eq_bind, Option.bind_eq_some_iff, Option.pure_def, Option.some.injEq] at h
  obtain ⟨⟨a, _⟩, ha, heq⟩ := h
  cases heq
  obtain ⟨xs, hx, rfl⟩ := hc ha
  exact ⟨xs, (congrArg c.encode (hgf a)).trans hx, rfl⟩

/-- Of the bytes that are read, what was written is determined. -/
theorem Canonical.decode_eq_some_iff {c : Codec α} (hc : c.Canonical) {a : α} {bs rest : List UInt8} :
    c.decode bs = some (a, rest) ↔ ∃ xs, c.encode a = some xs ∧ bs = xs ++ rest := by
  constructor
  · exact hc
  · intro h
    obtain ⟨xs, hx, rfl⟩ := h
    exact c.decode_encode hx rest

/-- An array of bytes. -/
def array (n : ℕ) : Codec (List.Vector UInt8 n) where
  encode v := some v.val
  decode bs := if h : n ≤ bs.length then some (⟨bs.take n, List.length_take_of_le h⟩, bs.drop n) else none
  decode_encode := by
    rintro ⟨v, hv⟩ bs ⟨⟩ rest
    have hle : n ≤ (v ++ rest).length := by
      rw [List.length_append, hv]
      exact Nat.le_add_right ..
    simp only [dif_pos hle, List.take_left' hv, List.drop_left' hv]

theorem array_canonical (n : ℕ) : (array n).Canonical := by
  intro v bs rest h
  simp only [array] at h
  split_ifs at h
  cases h
  exact ⟨_, rfl, (List.take_append_drop ..).symm⟩

/-- `Option<T>`: whether there is a value, and the value. -/
def option (c : Codec α) : Codec (Option α) where
  encode
    | none => some [0]
    | some a => (c.encode a).map (1 :: ·)
  decode
    | [] => none
    | b :: rest =>
      if b = 0 then some (none, rest)
      else if b = 1 then (c.decode rest).map fun (a, rest) => (some a, rest)
      else none
  decode_encode := by
    rintro (_ | a) bs h rest
    · cases h
      rfl
    · obtain ⟨xs, hx, rfl⟩ := Option.map_eq_some_iff.mp h
      have hone : ¬ (1 : UInt8) = 0 := by decide
      simp only [List.cons_append, hone, if_false, if_true, c.decode_encode hx, Option.map_some]

theorem Canonical.option {c : Codec α} (hc : c.Canonical) : c.option.Canonical := by
  intro a bs rest h
  cases bs with
  | nil => cases h
  | cons b bs =>
    simp only [Codec.option] at h
    split_ifs at h with h0 h1
    · cases h
      exact ⟨[0], rfl, by rw [h0]; rfl⟩
    · obtain ⟨⟨x, _⟩, hx, heq⟩ := Option.map_eq_some_iff.mp h
      cases heq
      obtain ⟨xs, hxs, rfl⟩ := hc hx
      exact ⟨1 :: xs, congrArg (Option.map (1 :: ·)) hxs, by rw [h1]; rfl⟩

/-- A variant of an enumeration: its index, and its data. -/
def variant (i : UInt8) (c : Codec α) : Codec α where
  encode a := (c.encode a).map (i :: ·)
  decode
    | [] => none
    | b :: rest => if b = i then c.decode rest else none
  decode_encode := by
    intro a bs h rest
    obtain ⟨xs, hx, rfl⟩ := Option.map_eq_some_iff.mp h
    simp only [List.cons_append, if_true, c.decode_encode hx]

theorem Canonical.variant {c : Codec α} (hc : c.Canonical) (i : UInt8) : (c.variant i).Canonical := by
  intro a bs rest h
  cases bs with
  | nil => cases h
  | cons b bs =>
    simp only [Codec.variant] at h
    split_ifs at h with hb
    obtain ⟨xs, hx, rfl⟩ := hc h
    exact ⟨i :: xs, congrArg (Option.map (i :: ·)) hx, by rw [hb]; rfl⟩

/-- An enumeration of two variants. -/
def either (i j : UInt8) (hij : i ≠ j) (c : Codec α) (d : Codec β) : Codec (α ⊕ β) where
  encode
    | .inl a => (c.encode a).map (i :: ·)
    | .inr b => (d.encode b).map (j :: ·)
  decode
    | [] => none
    | b :: rest =>
      if b = i then (c.decode rest).map fun (x, rest) => (.inl x, rest)
      else if b = j then (d.decode rest).map fun (x, rest) => (.inr x, rest)
      else none
  decode_encode := by
    rintro (a | b) bs h rest
    · obtain ⟨xs, hx, rfl⟩ := Option.map_eq_some_iff.mp h
      simp only [List.cons_append, if_true, c.decode_encode hx, Option.map_some]
    · obtain ⟨xs, hx, rfl⟩ := Option.map_eq_some_iff.mp h
      simp only [List.cons_append, hij.symm, if_false, if_true, d.decode_encode hx, Option.map_some]

theorem Canonical.either {c : Codec α} {d : Codec β} (hc : c.Canonical) (hd : d.Canonical) {i j : UInt8}
    (hij : i ≠ j) : (Codec.either i j hij c d).Canonical := by
  intro x bs rest h
  cases bs with
  | nil => cases h
  | cons b bs =>
    simp only [Codec.either] at h
    split_ifs at h with hi hj
    · obtain ⟨⟨a, _⟩, ha, heq⟩ := Option.map_eq_some_iff.mp h
      cases heq
      obtain ⟨xs, hx, rfl⟩ := hc ha
      exact ⟨i :: xs, congrArg (Option.map (i :: ·)) hx, by rw [hi]; rfl⟩
    · obtain ⟨⟨b, _⟩, hb, heq⟩ := Option.map_eq_some_iff.mp h
      cases heq
      obtain ⟨xs, hx, rfl⟩ := hd hb
      exact ⟨j :: xs, congrArg (Option.map (j :: ·)) hx, by rw [hj]; rfl⟩

/-- The values with a property, which is looked at when one is read. -/
def restrict (c : Codec α) (p : α → Prop) [DecidablePred p] : Codec {a // p a} where
  encode a := c.encode a.val
  decode bs := (c.decode bs).bind fun (a, rest) => if h : p a then some (⟨a, h⟩, rest) else none
  decode_encode := by
    rintro ⟨a, ha⟩ bs h rest
    simp only [c.decode_encode h, Option.bind_some, dif_pos ha]

theorem Canonical.restrict {c : Codec α} (hc : c.Canonical) (p : α → Prop) [DecidablePred p] :
    (c.restrict p).Canonical := by
  rintro ⟨a, ha⟩ bs rest h
  obtain ⟨⟨x, _⟩, hx, h⟩ := Option.bind_eq_some_iff.mp h
  dsimp only at h
  split_ifs at h
  cases h
  exact hc hx

end Codec

/-! ### Compact integers -/

/-- How many bytes a number of 2³⁰ or more takes. -/
def bytesNeeded (n : ℕ) : ℕ := n.log2 / 8 + 1

/-- The bytes of the compact form of `n`, however large. -/
def wideCompactBytes (n : ℕ) : List UInt8 :=
  if n < 2 ^ 30 then compactBytes n else UInt8.ofNat (4 * (bytesNeeded n - 4) + 3) :: leBytes (bytesNeeded n) n

/-- Read a compact integer of at most so many bytes, in its shortest form only. -/
def readWideCompact (width : ℕ) : List UInt8 → Option (ℕ × List UInt8)
  | [] => none
  | b :: rest =>
    if b.toNat % 4 = 3 then
      let k := b.toNat / 4 + 4
      let n := leValue (rest.take k)
      if k ≤ width ∧ k ≤ rest.length ∧ 2 ^ 30 ≤ n ∧ 256 ^ (k - 1) ≤ n then some (n, rest.drop k) else none
    else readCompact (b :: rest)

theorem two_pow_bits (k : ℕ) : 2 ^ (8 * k) = 256 ^ k := pow_mul 2 8 k

theorem bytesNeeded_le_iff {n k : ℕ} (hn : n ≠ 0) : bytesNeeded n ≤ k ↔ n < 256 ^ k := by
  rw [bytesNeeded, ← two_pow_bits, ← Nat.log2_lt hn, Nat.succ_le_iff, Nat.div_lt_iff_lt_mul (by decide), Nat.mul_comm]

/-- A number takes as many bytes as there are below it. -/
theorem bytesNeeded_eq {n k : ℕ} (hle : 256 ^ k ≤ n) (hlt : n < 256 ^ (k + 1)) : bytesNeeded n = k + 1 := by
  have hn : n ≠ 0 := (Nat.pos_of_ne_zero (by simp)).trans_le hle |>.ne'
  refine le_antisymm ((bytesNeeded_le_iff hn).mpr hlt) (Nat.lt_of_not_le fun h => ?_)
  exact absurd ((bytesNeeded_le_iff hn).mp h) (not_lt.mpr hle)

/-- The two low bits of the first byte are those of a number below 2³⁰ unless it is one of the others. -/
theorem compactBytes_head {n : ℕ} (h : n < 2 ^ 30) : ∃ b bs, compactBytes n = b :: bs ∧ b.toNat % 4 ≠ 3 := by
  unfold compactBytes
  split_ifs
  · exact ⟨_, _, rfl, by rw [UInt8.toNat_ofNat']; omega⟩
  · exact ⟨_, _, rfl, by rw [UInt8.toNat_ofNat']; omega⟩
  · exact ⟨_, _, rfl, by rw [UInt8.toNat_ofNat']; omega⟩

section Wide

variable {width : ℕ} (hmin : 4 ≤ width) (hmax : width ≤ 67)
include hmin

theorem readWideCompact_wideCompactBytes {n : ℕ} (hmax : width ≤ 67) (h : n < 256 ^ width) (rest : List UInt8) :
    readWideCompact width (wideCompactBytes n ++ rest) = some (n, rest) := by
  rw [wideCompactBytes]
  split_ifs with hsmall
  · obtain ⟨b, bs, hbytes, hmode⟩ := compactBytes_head hsmall
    have hread := readCompact_compactBytes (hsmall.trans (by decide)) rest
    rw [hbytes, List.cons_append] at hread ⊢
    rw [readWideCompact, if_neg hmode, hread]
  · have hn : n ≠ 0 := by omega
    have hlow : ¬ bytesNeeded n ≤ 3 := by
      rw [bytesNeeded_le_iff hn]
      omega
    have hhigh : bytesNeeded n ≤ width := (bytesNeeded_le_iff hn).mpr h
    have hprefix : (UInt8.ofNat (4 * (bytesNeeded n - 4) + 3)).toNat = 4 * (bytesNeeded n - 4) + 3 := by
      rw [UInt8.toNat_ofNat']
      omega
    have hk : (4 * (bytesNeeded n - 4) + 3) / 4 + 4 = bytesNeeded n := by omega
    have hvalue : leValue (leBytes (bytesNeeded n) n) = n :=
      leValue_leBytes ((bytesNeeded_le_iff hn).mp (Nat.le_refl _))
    have hbelow : 256 ^ (bytesNeeded n - 1) ≤ n := by
      by_contra hlt
      have hfewer := (bytesNeeded_le_iff hn).mpr (not_le.mp hlt)
      omega
    have hlength := length_leBytes (bytesNeeded n) n
    simp only [List.cons_append, readWideCompact, hprefix, hk, List.take_left' hlength, List.drop_left' hlength, hvalue]
    rw [if_pos (by omega), if_pos]
    refine ⟨hhigh, ?_, not_lt.mp hsmall, hbelow⟩
    rw [List.length_append, hlength]
    exact Nat.le_add_right ..

/-- Only the shortest form is read. -/
theorem readWideCompact_eq_some {bs rest : List UInt8} {n : ℕ} (h : readWideCompact width bs = some (n, rest)) :
    n < 256 ^ width ∧ bs = wideCompactBytes n ++ rest := by
  cases bs with
  | nil => cases h
  | cons b bs =>
    simp only [readWideCompact] at h
    split_ifs at h with hmode hread
    · obtain ⟨hwidth, hlength, hlarge, hbelow⟩ := hread
      cases h
      have htake : (bs.take (b.toNat / 4 + 4)).length = b.toNat / 4 + 4 := List.length_take_of_le hlength
      have hlt := leValue_lt (bs.take (b.toNat / 4 + 4))
      rw [htake] at hlt
      have hneeded : bytesNeeded (leValue (bs.take (b.toNat / 4 + 4))) = b.toNat / 4 + 4 := bytesNeeded_eq hbelow hlt
      refine ⟨hlt.trans_le (Nat.pow_le_pow_right (by decide) hwidth), ?_⟩
      have hprefix : UInt8.ofNat (4 * (b.toNat / 4 + 4 - 4) + 3) = b := by
        rw [← UInt8.toNat_inj, UInt8.toNat_ofNat']
        have := b.toNat_lt
        omega
      rw [wideCompactBytes, if_neg (not_lt.mpr hlarge), hneeded, leBytes_leValue htake, hprefix, List.cons_append,
        List.take_append_drop]
    · obtain ⟨hlt, hbytes⟩ := readCompact_eq_some h
      have hsmall : n < 2 ^ 30 := by
        by_contra hlarge
        rw [compactBytes, if_neg (by omega), if_neg (by omega), if_neg hlarge, List.cons_append,
          List.cons.injEq] at hbytes
        rw [hbytes.1] at hmode
        exact hmode (by decide)
      rw [wideCompactBytes, if_pos hsmall]
      exact ⟨hsmall.trans_le (le_trans (by decide) (Nat.pow_le_pow_right (by decide) hmin)), hbytes⟩

end Wide

/-- `Compact<T>` of an integer of so many bytes. -/
def wideCompact (width : ℕ) (hmin : 4 ≤ width) (hmax : width ≤ 67) : Codec (BitVec (8 * width)) where
  encode x := some (wideCompactBytes x.toNat)
  decode bs := (readWideCompact width bs).map fun (n, rest) => (BitVec.ofNat _ n, rest)
  decode_encode := by
    rintro x bs ⟨⟩ rest
    have hlt : x.toNat < 256 ^ width := (two_pow_bits width) ▸ x.isLt
    rw [readWideCompact_wideCompactBytes hmin hmax hlt]
    simp

theorem wideCompact_canonical (width : ℕ) (hmin : 4 ≤ width) (hmax : width ≤ 67) :
    (wideCompact width hmin hmax).Canonical := by
  intro x bs rest h
  obtain ⟨⟨n, _⟩, hn, heq⟩ := Option.map_eq_some_iff.mp h
  cases heq
  obtain ⟨hlt, rfl⟩ := readWideCompact_eq_some hmin hn
  refine ⟨_, rfl, ?_⟩
  rw [← two_pow_bits] at hlt
  rw [BitVec.toNat_ofNat, Nat.mod_eq_of_lt hlt]

/-- `Compact<u128>`. -/
def compactU128 : Codec (BitVec 128) := wideCompact 16 (by decide) (by decide)

/-- `Compact<u64>`. -/
def compactU64 : Codec UInt64 :=
  (wideCompact 8 (by decide) (by decide)).iso UInt64.ofBitVec UInt64.toBitVec fun _ => rfl

theorem compactU64_canonical : compactU64.Canonical :=
  Codec.Canonical.iso (wideCompact_canonical 8 (by decide) (by decide)) fun _ => rfl

/-- `Compact<u16>`: read like the wider ones, and too large otherwise. -/
def compactU16 : Codec UInt16 where
  encode x := some (compactBytes x.toNat)
  decode bs := (readCompact bs).bind fun (n, rest) => if n < 2 ^ 16 then some (UInt16.ofNat n, rest) else none
  decode_encode := by
    rintro x bs ⟨⟩ rest
    have hlt := x.toNat_lt
    rw [readCompact_compactBytes (hlt.trans (by decide))]
    simp [hlt]

theorem compactU16_canonical : compactU16.Canonical := by
  intro x bs rest h
  obtain ⟨⟨n, _⟩, hn, h⟩ := Option.bind_eq_some_iff.mp h
  dsimp only at h
  split_ifs at h with hlt
  cases h
  obtain ⟨-, rfl⟩ := readCompact_eq_some hn
  exact ⟨_, rfl, by rw [UInt16.toNat_ofNat', Nat.mod_eq_of_lt hlt]⟩

/-- A large number, a number that is not in its shortest form, and one that does not fit. -/
example : compactU64.encode 1073741824 = some [3, 0, 0, 0, 64] ∧ compactU64.decode [7, 1, 0, 0, 0, 0] = none ∧
    compactU16.decode [2, 0, 4, 0] = none := by decide

end AvailCore
