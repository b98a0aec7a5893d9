import AvailCore.Foundation.Word
import Mathlib.Data.List.Forall2

/-!
# The Solidity ABI

Values of the Solidity ABI (`Token`) as words of 32 bytes. The items of a tuple are laid
out as their heads and then their tails: an item of a fixed size is its own head and has
no tail, and the head of any other is the offset of its tail.

## What is proved

Of two lists of items, alike in which are dynamic and how long the others are, and each
recognized from the front of any bytes, the layout is recognized from the front of any
bytes (`layout_inj`): neither the offsets nor the tails of other items can be mistaken for
it. Hence tuples of one type have different encodings (`encode_inj`).
-/

namespace AvailCore.SolidityAbi

/-- A word of 32 bytes, big-endian. -/
def word (n : BitVec 256) : List UInt8 := (leBytes 32 n.toNat).reverse

/-- Zeros up to a whole number of words. -/
def padRight (bs : List UInt8) : List UInt8 := bs ++ List.replicate ((32 - bs.length % 32) % 32) 0

@[simp] theorem length_word (n : BitVec 256) : (word n).length = 32 := by
  rw [word, List.length_reverse, length_leBytes]

theorem length_word_eq (m n : BitVec 256) : (word m).length = (word n).length := by rw [length_word, length_word]

theorem word_inj {m n : BitVec 256} (h : word m = word n) : m = n := by
  have hbytes : leBytes 32 m.toNat = leBytes 32 n.toNat := List.reverse_injective h
  have hvalue := congrArg leValue hbytes
  rw [leValue_leBytes m.isLt, leValue_leBytes n.isLt] at hvalue
  exact BitVec.eq_of_toNat_eq hvalue

theorem ofNat_inj {m n : ℕ} (hm : m < 2 ^ 256) (hn : n < 2 ^ 256) (h : BitVec.ofNat 256 m = BitVec.ofNat 256 n) :
    m = n := by
  have heq := congrArg BitVec.toNat h
  rwa [BitVec.toNat_ofNat, BitVec.toNat_ofNat, Nat.mod_eq_of_lt hm, Nat.mod_eq_of_lt hn] at heq

theorem length_padRight (bs : List UInt8) : (padRight bs).length = bs.length + (32 - bs.length % 32) % 32 := by
  rw [padRight, List.length_append, List.length_replicate]

theorem padRight_inj {bs cs : List UInt8} (hlen : bs.length = cs.length) (h : padRight bs = padRight cs) : bs = cs :=
  List.append_inj_left h hlen

/-! ### Heads and tails -/

/-- The encoding of an item, and whether its size depends on its value. -/
structure Part where
  dynamic : Bool
  bytes : List UInt8

/-- The length of the head. -/
def Part.headLength (p : Part) : ℕ := if p.dynamic then 32 else p.bytes.length

def headsLength (ps : List Part) : ℕ := (ps.map Part.headLength).sum

/-- The heads; the next tail is at `offset`. -/
def heads : ℕ → List Part → List UInt8
  | _, [] => []
  | offset, p :: ps =>
    if p.dynamic then word (BitVec.ofNat 256 offset) ++ heads (offset + p.bytes.length) ps
    else p.bytes ++ heads offset ps

def tails : List Part → List UInt8
  | [] => []
  | p :: ps => (if p.dynamic then p.bytes else []) ++ tails ps

/-- The encoding of a tuple of items. -/
def layout (ps : List Part) : List UInt8 := heads (headsLength ps) ps ++ tails ps

theorem length_heads (offset : ℕ) (ps : List Part) : (heads offset ps).length = headsLength ps := by
  induction ps generalizing offset with
  | nil => rfl
  | cons p ps ih =>
    rw [heads, headsLength, List.map_cons, List.sum_cons, Part.headLength]
    split_ifs with h
    · rw [List.length_append, length_word, ih, headsLength]
    · rw [List.length_append, ih, headsLength]

/-- Encodings of one type: of the same length if that does not depend on the value, and
neither is the front of the other followed by something else. -/
structure Part.Alike (p q : Part) : Prop where
  dynamic : p.dynamic = q.dynamic
  length : p.dynamic = false → p.bytes.length = q.bytes.length
  front : ∀ r r', p.bytes ++ r = q.bytes ++ r' → p.bytes = q.bytes

/-- Encodings of the same length. -/
theorem Part.Alike.of_length {d : Bool} {bs cs : List UInt8} (h : bs.length = cs.length) :
    Part.Alike ⟨d, bs⟩ ⟨d, cs⟩ :=
  ⟨rfl, fun _ => h, fun _ _ heq => List.append_inj_left heq h⟩

section Alike

variable {ps qs : List Part} (h : List.Forall₂ Part.Alike ps qs)

include h

theorem headsLength_eq : headsLength ps = headsLength qs := by
  induction h with
  | nil => rfl
  | @cons p q _ _ hp _ ih =>
    have hhead : p.headLength = q.headLength := by
      rw [Part.headLength, Part.headLength, ← hp.dynamic]
      split_ifs with hd
      · rfl
      · exact hp.length (Bool.eq_false_iff.mpr hd)
    rw [headsLength, headsLength, List.map_cons, List.map_cons, List.sum_cons, List.sum_cons, hhead]
    exact congrArg _ ih

theorem any_dynamic_eq : ps.any Part.dynamic = qs.any Part.dynamic := by
  induction h with
  | nil => rfl
  | cons hp _ ih => rw [List.any_cons, List.any_cons, hp.dynamic, ih]

/-- The items are read off the heads and the tails, from the first to the last. -/
theorem heads_tails_inj {m n : ℕ} {r r' : List UInt8} (hheads : heads m ps = heads n qs)
    (htails : tails ps ++ r = tails qs ++ r') : ps = qs ∧ r = r' := by
  induction h generalizing m n with
  | nil => exact ⟨rfl, htails⟩
  | @cons p q ps qs hp _ ih =>
    obtain ⟨dynamic, bytes⟩ := p
    obtain ⟨_, bytes'⟩ := q
    cases hp.dynamic
    cases dynamic with
    | false =>
      -- The head is the item.
      simp only [heads, Bool.false_eq_true, if_false] at hheads
      simp only [tails, Bool.false_eq_true, if_false, List.nil_append] at htails
      obtain ⟨hbytes, hheads'⟩ := List.append_inj hheads (hp.length rfl)
      obtain ⟨rfl, hr⟩ := ih hheads' htails
      cases hbytes
      exact ⟨rfl, hr⟩
    | true =>
      -- The tail is the item, and what follows the tail is not.
      simp only [heads, if_true] at hheads
      simp only [tails, if_true, List.append_assoc] at htails
      have hheads' := List.append_inj_right hheads (length_word_eq ..)
      have hbytes := hp.front _ _ htails
      cases hbytes
      obtain ⟨rfl, hr⟩ := ih hheads' (List.append_cancel_left htails)
      exact ⟨rfl, hr⟩

/-- **Heads and tails**: the layout of alike items tells them apart, whatever follows it. -/
theorem layout_inj {r r' : List UInt8} (heq : layout ps ++ r = layout qs ++ r') : ps = qs ∧ r = r' := by
  rw [layout, layout, List.append_assoc, List.append_assoc] at heq
  have hlen : (heads (headsLength ps) ps).length = (heads (headsLength qs) qs).length := by
    rw [length_heads, length_heads, headsLength_eq h]
  obtain ⟨hheads, htails⟩ := List.append_inj heq hlen
  exact heads_tails_inj h hheads htails

end Alike

theorem tails_eq_nil {ps : List Part} (h : ps.any Part.dynamic = false) : tails ps = [] := by
  induction ps with
  | nil => rfl
  | cons p ps ih =>
    rw [List.any_cons, Bool.or_eq_false_iff] at h
    rw [tails, h.1, ih h.2]
    rfl

/-- A tuple is an item again. -/
theorem Part.Alike.tuple {ps qs : List Part} (h : List.Forall₂ Part.Alike ps qs) :
    Part.Alike ⟨ps.any Part.dynamic, layout ps⟩ ⟨qs.any Part.dynamic, layout qs⟩ where
  dynamic := any_dynamic_eq h
  length := by
    intro hstatic
    have hstatic' : qs.any Part.dynamic = false := (any_dynamic_eq h).symm.trans hstatic
    rw [layout, layout, tails_eq_nil hstatic, tails_eq_nil hstatic', List.append_nil, List.append_nil, length_heads,
      length_heads, headsLength_eq h]
  front := by
    intro r r' heq
    rw [(layout_inj h heq).1]

/-! ### Values -/

/-- `Token` -/
inductive Token where
  /-- `bytes1`, …, `bytes32` -/
  | fixedBytes (bs : List UInt8)
  /-- `uint256` -/
  | uint (n : BitVec 256)
  /-- `bytes` -/
  | bytes (bs : List UInt8)
  | tuple (ts : List Token)

/-- The type of a token. -/
inductive Ty where
  | fixedBytes (n : ℕ)
  | uint
  | bytes
  | tuple (ts : List Ty)

mutual

/-- The encoding of a token. -/
def Token.part : Token → Part
  | .fixedBytes bs => ⟨false, padRight bs⟩
  | .uint n => ⟨false, word n⟩
  | .bytes bs => ⟨true, word (BitVec.ofNat 256 bs.length) ++ padRight bs⟩
  | .tuple ts => ⟨(parts ts).any Part.dynamic, layout (parts ts)⟩

def parts : List Token → List Part
  | [] => []
  | t :: ts => t.part :: parts ts

end

/-- The encoding of the arguments of a call, or of values that are returned. -/
def encode (ts : List Token) : List UInt8 := layout (parts ts)

mutual

def Token.ty : Token → Ty
  | .fixedBytes bs => .fixedBytes bs.length
  | .uint _ => .uint
  | .bytes _ => .bytes
  | .tuple ts => .tuple (tys ts)

def tys : List Token → List Ty
  | [] => []
  | t :: ts => t.ty :: tys ts

end

mutual

/-- A value of its type: at most 32 bytes, or as many as a word can count. -/
def Token.Valid : Token → Prop
  | .fixedBytes bs => 0 < bs.length ∧ bs.length ≤ 32
  | .uint _ => True
  | .bytes bs => bs.length < 2 ^ 256
  | .tuple ts => AllValid ts

def AllValid : List Token → Prop
  | [] => True
  | t :: ts => t.Valid ∧ AllValid ts

end

mutual

/-- Values of one type are recognized from the front of any bytes. -/
theorem Token.part_alike : ∀ {t u : Token}, t.ty = u.ty → t.Valid → u.Valid → Part.Alike t.part u.part
  | .fixedBytes bs, .fixedBytes cs, hty, _, _ => by
    simp only [Token.ty, Ty.fixedBytes.injEq] at hty
    exact Part.Alike.of_length (by rw [length_padRight, length_padRight, hty])
  | .uint m, .uint n, _, _, _ => Part.Alike.of_length (length_word_eq ..)
  | .bytes bs, .bytes cs, _, hbs, hcs => by
    refine ⟨rfl, Bool.noConfusion, fun r r' heq => ?_⟩
    -- The count comes first, and says where the zeros end.
    simp only [Token.part, List.append_assoc] at heq ⊢
    obtain ⟨hword, hrest⟩ := List.append_inj heq (length_word_eq ..)
    have hlen : bs.length = cs.length := ofNat_inj hbs hcs (word_inj hword)
    have hpad : (padRight bs).length = (padRight cs).length := by rw [length_padRight, length_padRight, hlen]
    rw [hword, List.append_inj_left hrest hpad]
  | .tuple ts, .tuple us, hty, hts, hus => by
    simp only [Token.ty, Ty.tuple.injEq] at hty
    exact Part.Alike.tuple (parts_alike hty hts hus)

theorem parts_alike : ∀ {ts us : List Token}, tys ts = tys us → AllValid ts → AllValid us →
    List.Forall₂ Part.Alike (parts ts) (parts us)
  | [], [], _, _, _ => .nil
  | t :: ts, u :: us, hty, hts, hus => by
    simp only [tys, List.cons.injEq] at hty
    exact .cons (Token.part_alike hty.1 hts.1 hus.1) (parts_alike hty.2 hts.2 hus.2)

end

mutual

theorem Token.part_inj : ∀ {t u : Token}, t.ty = u.ty → t.Valid → u.Valid → t.part.bytes = u.part.bytes → t = u
  | .fixedBytes bs, .fixedBytes cs, hty, _, _, h => by
    simp only [Token.ty, Ty.fixedBytes.injEq] at hty
    rw [padRight_inj hty h]
  | .uint m, .uint n, _, _, _, h => by rw [word_inj h]
  | .bytes bs, .bytes cs, _, hbs, hcs, h => by
    obtain ⟨hword, hpad⟩ := List.append_inj h (length_word_eq ..)
    rw [padRight_inj (ofNat_inj hbs hcs (word_inj hword)) hpad]
  | .tuple ts, .tuple us, hty, hts, hus, h => by
    simp only [Token.ty, Ty.tuple.injEq] at hty
    have hparts := (layout_inj (parts_alike hty hts hus) (congrArg (· ++ []) h)).1
    rw [parts_inj hty hts hus hparts]

theorem parts_inj : ∀ {ts us : List Token}, tys ts = tys us → AllValid ts → AllValid us → parts ts = parts us → ts = us
  | [], [], _, _, _, _ => rfl
  | t :: ts, u :: us, hty, hts, hus, h => by
    simp only [tys, List.cons.injEq] at hty
    simp only [parts, List.cons.injEq] at h
    rw [Token.part_inj hty.1 hts.1 hus.1 (congrArg Part.bytes h.1), parts_inj hty.2 hts.2 hus.2 h.2]

end

/-- **Values of one type have different encodings.** -/
theorem encode_inj {ts us : List Token} (hty : tys ts = tys us) (hts : AllValid ts) (hus : AllValid us)
    (h : encode ts = encode us) : ts = us :=
  parts_inj hty hts hus (layout_inj (parts_alike hty hts hus) (congrArg (· ++ []) h)).1

end AvailCore.SolidityAbi
