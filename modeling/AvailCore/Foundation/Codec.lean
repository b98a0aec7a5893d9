import Mathlib.Data.List.Basic
import Mathlib.Data.UInt

/-!
# Prefix codecs, and SCALE

A codec writes a value as bytes and reads it back from the front of any byte string,
leaving the rest (`Codec`). Writing may fail: a SCALE encoder panics on a sequence of
more than `2³² – 1` items. The law is carried by the codec itself, so that a codec
built from others (`Codec.prod`, `Codec.iso`, `Codec.vec`) is one by construction.

`byte`, `compact` and `Codec.vec` are the formats SCALE documents for `u8`,
`Compact<u32>` and `Vec<T>`: a compact integer keeps its length in the two low bits of
its first byte, and only its shortest form is read back; a vector is its length,
compact, and then its items.
-/

namespace AvailCore

/-- A writer of values as bytes, and a reader that consumes exactly what was written. -/
structure Codec (α : Type) where
  /-- The bytes of a value; `none` where the writer panics. -/
  encode : α → Option (List UInt8)
  /-- Read one value, and give back the rest of the bytes. -/
  decode : List UInt8 → Option (α × List UInt8)
  /-- What was written is read back, whatever follows it. -/
  decode_encode : ∀ {a bs}, encode a = some bs → ∀ rest, decode (bs ++ rest) = some (a, rest)

namespace Codec

variable {α β : Type}

/-- Two values with the same bytes are the same. -/
theorem encode_inj (c : Codec α) {a b : α} {bs : List UInt8} (ha : c.encode a = some bs)
    (hb : c.encode b = some bs) : a = b := by
  have h := (c.decode_encode ha []).symm.trans (c.decode_encode hb [])
  exact congrArg Prod.fst (Option.some.inj h)

/-- Only what the codec writes is read. -/
def Canonical (c : Codec α) : Prop :=
  ∀ {a bs rest}, c.decode bs = some (a, rest) → ∃ xs, c.encode a = some xs ∧ bs = xs ++ rest

/-- Two values, one after the other. -/
def prod (c : Codec α) (d : Codec β) : Codec (α × β) where
  encode p := do
    let xs ← c.encode p.1
    let ys ← d.encode p.2
    return xs ++ ys
  decode bs := do
    let (a, rest) ← c.decode bs
    let (b, rest) ← d.decode rest
    return ((a, b), rest)
  decode_encode := by
    rintro ⟨a, b⟩ bs h rest
    simp only [Option.bind_eq_bind, Option.bind_eq_some_iff, Option.pure_def, Option.some.injEq] at h
    obtain ⟨xs, hx, ys, hy, rfl⟩ := h
    simp [List.append_assoc, c.decode_encode hx, d.decode_encode hy]

theorem prod_encode_isSome {c : Codec α} {d : Codec β} {p : α × β} (hc : (c.encode p.1).isSome)
    (hd : (d.encode p.2).isSome) : ((c.prod d).encode p).isSome := by
  obtain ⟨xs, hx⟩ := Option.isSome_iff_exists.mp hc
  obtain ⟨ys, hy⟩ := Option.isSome_iff_exists.mp hd
  simp [prod, hx, hy]

theorem Canonical.prod {c : Codec α} {d : Codec β} (hc : c.Canonical) (hd : d.Canonical) : (c.prod d).Canonical := by
  intro p bs rest h
  simp only [Codec.prod, Option.bind_eq_bind, Option.bind_eq_some_iff, Option.pure_def, Option.some.injEq] at h
  obtain ⟨⟨a, rest'⟩, ha, ⟨b, _⟩, hb, heq⟩ := h
  cases heq
  obtain ⟨xs, hx, rfl⟩ := hc ha
  obtain ⟨ys, hy, rfl⟩ := hd hb
  exact ⟨xs ++ ys, by simp [Codec.prod, hx, hy], (List.append_assoc ..).symm⟩

/-- The same bytes for values of another type. -/
def iso (c : Codec α) (f : α → β) (g : β → α) (hfg : ∀ b, f (g b) = b) : Codec β where
  encode b := c.encode (g b)
  decode bs := do
    let (a, rest) ← c.decode bs
    return (f a, rest)
  decode_encode := by
    intro b bs h rest
    simp [c.decode_encode h, hfg]

/-- The bytes of the items of a list, in order. -/
def encodeAll (c : Codec α) : List α → Option (List UInt8)
  | [] => some []
  | a :: as => do
    let xs ← c.encode a
    let ys ← c.encodeAll as
    return xs ++ ys

/-- Read `n` items. -/
def decodeAll (c : Codec α) : ℕ → List UInt8 → Option (List α × List UInt8)
  | 0, bs => some ([], bs)
  | n + 1, bs => do
    let (a, rest) ← c.decode bs
    let (as, rest) ← c.decodeAll n rest
    return (a :: as, rest)

theorem decodeAll_encodeAll (c : Codec α) {as : List α} {bs : List UInt8} (h : c.encodeAll as = some bs)
    (rest : List UInt8) : c.decodeAll as.length (bs ++ rest) = some (as, rest) := by
  induction as generalizing bs with
  | nil =>
    cases h
    rfl
  | cons a as ih =>
    simp only [encodeAll, Option.bind_eq_bind, Option.bind_eq_some_iff, Option.pure_def,
      Option.some.injEq] at h
    obtain ⟨xs, hx, ys, hy, rfl⟩ := h
    simp [decodeAll, List.append_assoc, c.decode_encode hx, ih hy]

theorem Canonical.decodeAll {c : Codec α} (hc : c.Canonical) {n : ℕ} {as : List α} {bs rest : List UInt8}
    (h : c.decodeAll n bs = some (as, rest)) :
    as.length = n ∧ ∃ xs, c.encodeAll as = some xs ∧ bs = xs ++ rest := by
  induction n generalizing as bs with
  | zero =>
    cases h
    exact ⟨rfl, [], rfl, rfl⟩
  | succ n ih =>
    simp only [Codec.decodeAll, Option.bind_eq_bind, Option.bind_eq_some_iff, Option.pure_def,
      Option.some.injEq] at h
    obtain ⟨⟨a, rest'⟩, ha, ⟨as', _⟩, has, heq⟩ := h
    cases heq
    obtain ⟨xs, hx, rfl⟩ := hc ha
    obtain ⟨rfl, ys, hy, rfl⟩ := ih has
    exact ⟨rfl, xs ++ ys, by simp [encodeAll, hx, hy], (List.append_assoc ..).symm⟩

/-- Items that can all be written can be written one after the other. -/
theorem encodeAll_isSome (c : Codec α) {as : List α} (h : ∀ a ∈ as, (c.encode a).isSome) :
    (c.encodeAll as).isSome := by
  induction as with
  | nil => rfl
  | cons a as ih =>
    obtain ⟨xs, hx⟩ := Option.isSome_iff_exists.mp (h a (List.mem_cons_self ..))
    obtain ⟨ys, hy⟩ := Option.isSome_iff_exists.mp (ih fun b hb => h b (List.mem_cons_of_mem _ hb))
    simp [encodeAll, hx, hy]

end Codec

/-! ### SCALE -/

/-- `u8`. -/
def byte : Codec UInt8 where
  encode b := some [b]
  decode
    | [] => none
    | b :: rest => some (b, rest)
  decode_encode := by
    rintro b bs ⟨⟩ rest
    rfl

theorem byte_canonical : byte.Canonical := by
  intro b bs rest h
  cases bs with
  | nil => cases h
  | cons _ _ =>
    cases h
    exact ⟨_, rfl, rfl⟩

theorem encodeAll_byte (bs : List UInt8) : byte.encodeAll bs = some bs := by
  induction bs with
  | nil => rfl
  | cons b bs ih =>
    rw [Codec.encodeAll, ih]
    rfl

/-- The bytes of the compact form of `n`: the mode in the two low bits, then the value,
little-endian. -/
def compactBytes (n : ℕ) : List UInt8 :=
  if n < 2 ^ 6 then [UInt8.ofNat (4 * n)]
  else if n < 2 ^ 14 then [UInt8.ofNat (4 * n + 1), UInt8.ofNat (n / 2 ^ 6)]
  else if n < 2 ^ 30 then
    [UInt8.ofNat (4 * n + 2), UInt8.ofNat (n / 2 ^ 6), UInt8.ofNat (n / 2 ^ 14), UInt8.ofNat (n / 2 ^ 22)]
  else [3, UInt8.ofNat n, UInt8.ofNat (n / 2 ^ 8), UInt8.ofNat (n / 2 ^ 16), UInt8.ofNat (n / 2 ^ 24)]

/-- Read a compact integer, in its shortest form only. -/
def readCompact : List UInt8 → Option (ℕ × List UInt8)
  | [] => none
  | b :: rest =>
    if b.toNat % 4 = 0 then some (b.toNat / 4, rest)
    else if b.toNat % 4 = 1 then
      match rest with
      | b1 :: rest =>
        let n := (b.toNat + 2 ^ 8 * b1.toNat) / 4
        if 2 ^ 6 ≤ n then some (n, rest) else none
      | _ => none
    else if b.toNat % 4 = 2 then
      match rest with
      | b1 :: b2 :: b3 :: rest =>
        let n := (b.toNat + 2 ^ 8 * b1.toNat + 2 ^ 16 * b2.toNat + 2 ^ 24 * b3.toNat) / 4
        if 2 ^ 14 ≤ n then some (n, rest) else none
      | _ => none
    else if b = 3 then
      match rest with
      | b1 :: b2 :: b3 :: b4 :: rest =>
        let n := b1.toNat + 2 ^ 8 * b2.toNat + 2 ^ 16 * b3.toNat + 2 ^ 24 * b4.toNat
        if 2 ^ 30 ≤ n then some (n, rest) else none
      | _ => none
    else none

theorem readCompact_compactBytes {n : ℕ} (h : n < 2 ^ 32) (rest : List UInt8) :
    readCompact (compactBytes n ++ rest) = some (n, rest) := by
  unfold compactBytes
  split_ifs with h6 h14 h30
  · simp only [List.singleton_append, readCompact, UInt8.toNat_ofNat']
    rw [if_pos (by omega)]
    simp only [Option.some.injEq, Prod.mk.injEq, and_true]
    omega
  · simp only [List.cons_append, List.nil_append, readCompact, UInt8.toNat_ofNat']
    rw [if_neg (by omega), if_pos (by omega), if_pos (by omega)]
    simp only [Option.some.injEq, Prod.mk.injEq, and_true]
    omega
  · simp only [List.cons_append, List.nil_append, readCompact, UInt8.toNat_ofNat']
    rw [if_neg (by omega), if_neg (by omega), if_pos (by omega), if_pos (by omega)]
    simp only [Option.some.injEq, Prod.mk.injEq, and_true]
    omega
  · simp only [List.cons_append, List.nil_append, readCompact, UInt8.toNat_ofNat']
    rw [if_neg (by decide), if_neg (by decide), if_neg (by decide), if_pos trivial, if_pos (by omega)]
    simp only [Option.some.injEq, Prod.mk.injEq, and_true]
    omega

theorem ofNat_eq_of_mod {b : UInt8} {m : ℕ} (h : m % 256 = b.toNat) : UInt8.ofNat m = b := by
  rw [← UInt8.toNat_inj, UInt8.toNat_ofNat', h]

/-- Only the shortest form is read. -/
theorem readCompact_eq_some {bs rest : List UInt8} {n : ℕ} (h : readCompact bs = some (n, rest)) :
    n < 2 ^ 32 ∧ bs = compactBytes n ++ rest := by
  cases bs with
  | nil => cases h
  | cons b bs =>
    have hb := b.toNat_lt
    simp only [readCompact] at h
    split_ifs at h with h0 h1 h2 h3
    · cases h
      refine ⟨by omega, ?_⟩
      rw [compactBytes, if_pos (by omega), ofNat_eq_of_mod (b := b) (by omega)]
      rfl
    · cases bs with
      | nil => cases h
      | cons b1 bs =>
        have hb1 := b1.toNat_lt
        dsimp only at h
        split_ifs at h with hn
        cases h
        refine ⟨by omega, ?_⟩
        rw [compactBytes, if_neg (by omega), if_pos (by omega), ofNat_eq_of_mod (b := b) (by omega),
          ofNat_eq_of_mod (b := b1) (by omega)]
        rfl
    · match bs, h with
      | b1 :: b2 :: b3 :: bs, h =>
        have hb1 := b1.toNat_lt
        have hb2 := b2.toNat_lt
        have hb3 := b3.toNat_lt
        dsimp only at h
        split_ifs at h with hn
        cases h
        refine ⟨by omega, ?_⟩
        rw [compactBytes, if_neg (by omega), if_neg (by omega), if_pos (by omega),
          ofNat_eq_of_mod (b := b) (by omega), ofNat_eq_of_mod (b := b1) (by omega),
          ofNat_eq_of_mod (b := b2) (by omega), ofNat_eq_of_mod (b := b3) (by omega)]
        rfl
    · match bs, h with
      | b1 :: b2 :: b3 :: b4 :: bs, h =>
        have hb1 := b1.toNat_lt
        have hb2 := b2.toNat_lt
        have hb3 := b3.toNat_lt
        have hb4 := b4.toNat_lt
        dsimp only at h
        split_ifs at h with hn
        cases h
        refine ⟨by omega, ?_⟩
        rw [compactBytes, if_neg (by omega), if_neg (by omega), if_neg (by omega), h3,
          ofNat_eq_of_mod (b := b1) (by omega), ofNat_eq_of_mod (b := b2) (by omega),
          ofNat_eq_of_mod (b := b3) (by omega), ofNat_eq_of_mod (b := b4) (by omega)]
        rfl

/-- `Compact<u32>`. -/
def compact : Codec UInt32 where
  encode x := some (compactBytes x.toNat)
  decode bs := (readCompact bs).map fun (n, rest) => (UInt32.ofNat n, rest)
  decode_encode := by
    rintro x bs ⟨⟩ rest
    simp [readCompact_compactBytes x.toNat_lt]

theorem compact_canonical : compact.Canonical := by
  intro x bs rest h
  obtain ⟨⟨n, _⟩, hn, heq⟩ := Option.map_eq_some_iff.mp h
  cases heq
  obtain ⟨hlt, rfl⟩ := readCompact_eq_some hn
  exact ⟨_, rfl, by rw [UInt32.toNat_ofNat', Nat.mod_eq_of_lt hlt]⟩

/-- `Vec<T>`: the length, compact, and the items. A length past `u32` is a panic. -/
def Codec.vec {α : Type} (c : Codec α) : Codec (List α) where
  encode as := if as.length < 2 ^ 32 then (c.encodeAll as).map (compactBytes as.length ++ ·) else none
  decode bs := (readCompact bs).bind fun (n, rest) => c.decodeAll n rest
  decode_encode := by
    intro as bs h rest
    split_ifs at h with hlen
    rw [Option.map_eq_some_iff] at h
    obtain ⟨xs, hx, rfl⟩ := h
    rw [List.append_assoc, readCompact_compactBytes hlen]
    exact c.decodeAll_encodeAll hx rest

theorem Codec.vec_encode_isSome {α : Type} (c : Codec α) {as : List α} (h : ∀ a ∈ as, (c.encode a).isSome)
    (hlen : as.length < 2 ^ 32) : (c.vec.encode as).isSome := by
  simp only [Codec.vec, if_pos hlen, Option.isSome_map]
  exact c.encodeAll_isSome h

theorem Codec.vec_encode_eq_some {α : Type} {c : Codec α} {as : List α} {bs : List UInt8} :
    c.vec.encode as = some bs ↔
      as.length < 2 ^ 32 ∧ ∃ xs, c.encodeAll as = some xs ∧ bs = compactBytes as.length ++ xs := by
  simp only [Codec.vec]
  split_ifs with hlen
  · rw [Option.map_eq_some_iff, and_iff_right hlen]
    exact exists_congr fun xs => and_congr_right fun _ => eq_comm
  · exact iff_of_false nofun fun h => hlen h.1

theorem Codec.Canonical.vec {α : Type} {c : Codec α} (hc : c.Canonical) : c.vec.Canonical := by
  intro as bs rest h
  obtain ⟨⟨n, rest'⟩, hn, has⟩ := Option.bind_eq_some_iff.mp h
  obtain ⟨hlt, rfl⟩ := readCompact_eq_some hn
  obtain ⟨rfl, xs, hx, rfl⟩ := hc.decodeAll has
  refine ⟨compactBytes as.length ++ xs, ?_, (List.append_assoc ..).symm⟩
  simp only [Codec.vec, if_pos hlt, hx, Option.map_some]

/-- No bytes are not a vector. -/
theorem Codec.vec_decode_nil {α : Type} (c : Codec α) : c.vec.decode [] = none := rfl

end AvailCore
