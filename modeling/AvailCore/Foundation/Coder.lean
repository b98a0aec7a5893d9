import AvailCore.Foundation.Codec
import AvailCore.Foundation.Run

/-!
# Writers and readers without a law

A `Codec` carries the law that what it writes is read back. The code of a program may have
no such law, and its reader returns an error that says why it refuses (`Coder`).

Two readers of one format are related when one reads what the other reads, and looks into
it (`Coder.Refines`): then so are their vectors. A value that is passed on is read and
written again, with what follows it (`Coder.passOn`).
-/

namespace AvailCore

/-- How values are written, `none` where the writer panics, and how they are read. -/
structure Coder (ε α : Type) where
  encode : α → Option (List UInt8)
  decode : List UInt8 → Run ε (α × List UInt8)

namespace Coder

variable {ε ε' α β : Type}

/-- A codec, with the error of its reader. -/
def ofCodec (e : ε) (c : Codec α) : Coder ε α := ⟨c.encode, fun bs => Run.okOr e (c.decode bs)⟩

/-- The bytes of the items of a list, in order. -/
def encodeAll (c : Coder ε α) : List α → Option (List UInt8)
  | [] => some []
  | a :: as => do
    let xs ← c.encode a
    let ys ← c.encodeAll as
    return xs ++ ys

/-- Read `n` items. -/
def decodeAll (c : Coder ε α) : ℕ → List UInt8 → Run ε (List α × List UInt8)
  | 0, bs => .ok ([], bs)
  | n + 1, bs => do
    let (a, rest) ← c.decode bs
    let (as, rest) ← c.decodeAll n rest
    return (a :: as, rest)

/-- `Vec<T>`, with the error of a length that cannot be read. A length past `u32` is a panic. -/
def vec (e : ε) (c : Coder ε α) : Coder ε (List α) where
  encode as := if as.length < 2 ^ 32 then (c.encodeAll as).map (compactBytes as.length ++ ·) else none
  decode bs := do
    let (n, rest) ← Run.okOr e (readCompact bs)
    c.decodeAll n rest

/-- What is read of a value and written again, with what follows it. -/
def passOn (c : Coder ε α) (bs : List UInt8) : Run ε (List UInt8) := do
  let (a, rest) ← c.decode bs
  let xs ← Run.unwrap (c.encode a)
  return xs ++ rest

/-- What arrives when it is passed on so many times. -/
def passedOn (c : Coder ε α) : ℕ → List UInt8 → Run ε (List UInt8)
  | 0, bs => .ok bs
  | n + 1, bs => do
    let sent ← c.passOn bs
    c.passedOn n sent

/-! ### Readers of nothing but what is written -/

/-- Only what is written is read. -/
def Canonical (c : Coder ε α) : Prop :=
  ∀ {a bs rest}, c.decode bs = .ok (a, rest) → ∃ xs, c.encode a = some xs ∧ bs = xs ++ rest

theorem canonical_ofCodec (e : ε) {c : Codec α} (hc : c.Canonical) : (ofCodec e c).Canonical :=
  fun h => hc (Run.okOr_eq_ok.mp h)

theorem Canonical.decodeAll {c : Coder ε α} (hc : c.Canonical) {n : ℕ} {as : List α} {bs rest : List UInt8}
    (h : c.decodeAll n bs = .ok (as, rest)) : as.length = n ∧ ∃ xs, c.encodeAll as = some xs ∧ bs = xs ++ rest := by
  induction n generalizing as bs with
  | zero =>
    cases h
    exact ⟨rfl, [], rfl, rfl⟩
  | succ n ih =>
    simp only [Coder.decodeAll, Except.bind_eq_ok, Except.pure_eq_ok, Except.ok.injEq] at h
    obtain ⟨⟨a, rest'⟩, ha, ⟨as', _⟩, has, heq⟩ := h
    cases heq
    obtain ⟨xs, hx, rfl⟩ := hc ha
    obtain ⟨rfl, ys, hy, rfl⟩ := ih has
    refine ⟨rfl, xs ++ ys, ?_, (List.append_assoc ..).symm⟩
    simp [encodeAll, hx, hy]

theorem Canonical.vec {c : Coder ε α} (hc : c.Canonical) (e : ε) : (c.vec e).Canonical := by
  intro as bs rest h
  obtain ⟨⟨n, rest'⟩, hn, has⟩ := Except.bind_eq_ok.mp h
  obtain ⟨hlt, rfl⟩ := readCompact_eq_some (Run.okOr_eq_ok.mp hn)
  obtain ⟨rfl, xs, hx, rfl⟩ := hc.decodeAll has
  refine ⟨compactBytes as.length ++ xs, ?_, (List.append_assoc ..).symm⟩
  simp only [Coder.vec, if_pos hlt, hx, Option.map_some]

/-! ### Readers that look into what others read -/

/-- A reader that reads the same bytes as another, and gives a value that `R` relates to the other's. -/
def Refines (fine : Coder ε β) (coarse : Coder ε' α) (R : α → β → Prop) : Prop :=
  ∀ {bs b rest}, fine.decode bs = .ok (b, rest) ↔ ∃ a, coarse.decode bs = .ok (a, rest) ∧ R a b

section Refines

variable {fine : Coder ε β} {coarse : Coder ε' α} {R : α → β → Prop}

theorem Refines.decodeAll (h : fine.Refines coarse R) {n : ℕ} {bs : List UInt8} {bs' : List β} {rest : List UInt8} :
    fine.decodeAll n bs = .ok (bs', rest) ↔
      ∃ as, coarse.decodeAll n bs = .ok (as, rest) ∧ List.Forall₂ R as bs' := by
  induction n generalizing bs bs' with
  | zero =>
    simp only [Coder.decodeAll, Except.ok.injEq, Prod.mk.injEq]
    constructor
    · rintro ⟨rfl, rfl⟩
      exact ⟨[], ⟨rfl, rfl⟩, .nil⟩
    · rintro ⟨_, ⟨rfl, rfl⟩, hR⟩
      cases hR
      exact ⟨rfl, rfl⟩
  | succ n ih =>
    simp only [Coder.decodeAll, Except.bind_eq_ok, Except.pure_eq_ok, Except.ok.injEq]
    constructor
    · intro hread
      obtain ⟨⟨b, _⟩, hb, ⟨_, _⟩, hbs, heq⟩ := hread
      cases heq
      obtain ⟨a, ha, hR⟩ := h.mp hb
      obtain ⟨as, has, hRs⟩ := ih.mp hbs
      exact ⟨a :: as, ⟨_, ha, _, has, rfl⟩, .cons hR hRs⟩
    · intro hread
      obtain ⟨_, ⟨⟨a, _⟩, ha, ⟨as, _⟩, has, heq⟩, hRs⟩ := hread
      cases heq
      cases hRs with
      | cons hR hRs => exact ⟨_, h.mpr ⟨a, ha, hR⟩, _, ih.mpr ⟨as, has, hRs⟩, rfl⟩

/-- Vectors are related item by item. -/
theorem Refines.vec (h : fine.Refines coarse R) (e : ε) (e' : ε') :
    (fine.vec e).Refines (coarse.vec e') (List.Forall₂ R) := by
  intro bs bs' rest
  simp only [Coder.vec, Except.bind_eq_ok, Run.okOr_eq_ok, h.decodeAll]
  constructor
  · intro hread
    obtain ⟨len, hlen, as, has, hR⟩ := hread
    exact ⟨as, ⟨len, hlen, has⟩, hR⟩
  · intro hread
    obtain ⟨as, ⟨len, hlen, has⟩, hR⟩ := hread
    exact ⟨len, hlen, as, has, hR⟩

theorem encodeAll_congr {as : List α} {bs : List β}
    (h : List.Forall₂ (fun a b => coarse.encode a = fine.encode b) as bs) : coarse.encodeAll as = fine.encodeAll bs := by
  induction h with
  | nil => rfl
  | cons h _ ih => rw [Coder.encodeAll, Coder.encodeAll, h, ih]

/-- Vectors whose items are written alike are written alike. -/
theorem vec_encode_congr {as : List α} {bs : List β}
    (h : List.Forall₂ (fun a b => coarse.encode a = fine.encode b) as bs) (e : ε) (e' : ε') :
    (coarse.vec e').encode as = (fine.vec e).encode bs := by
  simp only [Coder.vec, encodeAll_congr h, h.length_eq]

end Refines

end Coder

end AvailCore
