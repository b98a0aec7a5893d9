import AvailCore.Core.DataLookup
import AvailCore.Foundation.Codec

/-!
# The compact form of a data lookup

`core/src/data_lookup/compact.rs` and the conversions in `mod.rs`. On the wire a
lookup is a `CompactDataLookup`: the end of the last range, and for each application
other than `AppId(0)` the start of its range. `from_data_lookup` drops the rest;
`try_from` rebuilds it, each item ending the range of the one before it.

## The model

`expand` is the loop of `try_from` with its variables `prev_id` and `offset` as
arguments; the vector it fills is its result. The SCALE bytes of the compact form are
a parameter, a `Codec`, and `scaleCompact` is the one its derived implementations document.

## What is proved

What `expand` returns, as one lemma for each thing asked of it: its ids and starts
(`items_expand`), its ends (`adjacent_expand`, `start_le_end_expand`), its last range.
From these: what a built lookup comes back as (`tryFrom_fromDataLookup`), when an
accepted compact form is ordered (`tryFrom_ordered_iff`), when it is what its lookup is
compacted to and when no other form has that lookup (`reencode_iff`).
-/

namespace AvailCore

/-- An application and where its range starts. -/
structure DataLookupItem where
  appId : AppId
  start : UInt32
  deriving DecidableEq, Repr

/-- `CompactDataLookup` -/
structure CompactDataLookup where
  /-- The size of the lookup. -/
  size : UInt32
  /-- The applications other than `AppId(0)`, with the start of each. -/
  index : List DataLookupItem
  deriving DecidableEq, Repr

namespace CompactDataLookup

/-- `CompactDataLookup::is_error` -/
def isError (c : CompactDataLookup) : Bool := c.size == u32Max || (c.size == 0 && !c.index.isEmpty)

/-- `CompactDataLookup::new_error` -/
def newError : CompactDataLookup := ⟨0, [⟨⟨0⟩, 0⟩]⟩

/-- `CompactDataLookup::from_data_lookup` -/
def fromDataLookup (lookup : DataLookup) : CompactDataLookup :=
  if lookup.isError then newError
  else
    { index := (lookup.index.filter fun x => x.1 ≠ ⟨0⟩).map fun x => ⟨x.1, x.2.start⟩
      size := lookup.index.getLast?.elim 0 fun x => x.2.end_ }

end CompactDataLookup

namespace DataLookup

/-- The ranges `try_from` pushes for the items from some point on, and for `size`. -/
def expand (size : UInt32) (prevId : AppId) (offset : UInt32) :
    List DataLookupItem → List (AppId × DataLookupRange)
  | [] => if (DataLookupRange.mk offset size).isEmpty then [] else [(prevId, ⟨offset, size⟩)]
  | c :: cs => (prevId, ⟨offset, c.start⟩) :: expand size c.appId c.start cs

/-- `DataLookup::try_from` -/
def tryFrom (compacted : CompactDataLookup) : Run DataLookupError DataLookup :=
  if compacted.isError then return newError
  else do
    Run.ensure (compacted.index.length + 1 < usizeLimit) .offsetOverflows
    let lookup : DataLookup := ⟨expand compacted.size ⟨0⟩ 0 compacted.index⟩
    Run.ensure (lookup.len == compacted.size) .dataNotSorted
    return lookup

/-- Why bytes are not a lookup. -/
inductive DecodeError where
  /-- They are not a compact form. -/
  | codec
  /-- `codec::Error::from(desc)`. -/
  | custom (desc : String)
  deriving DecidableEq, Repr

/-- `DataLookup::encode` -/
def encode (K : Codec CompactDataLookup) (l : DataLookup) : Option (List UInt8) :=
  K.encode (CompactDataLookup.fromDataLookup l)

/-- `DataLookup::decode`; what follows the lookup stays in the input. -/
def decode (K : Codec CompactDataLookup) (bs : List UInt8) : Run DecodeError (DataLookup × List UInt8) := do
  let (compacted, rest) ← Run.okOr .codec (K.decode bs)
  let lookup ← (tryFrom compacted).mapErr fun _ => .custom "Invalid `DataLookup`"
  return (lookup, rest)

end DataLookup

/-! ### What the loop returns -/

open DataLookup CompactDataLookup

/-- The start of the last item, or `offset` when there is none. -/
def lastStart (offset : UInt32) (cs : List DataLookupItem) : UInt32 := cs.getLast?.elim offset (·.start)

@[simp] theorem lastStart_nil (offset : UInt32) : lastStart offset [] = offset := rfl

@[simp] theorem lastStart_cons (offset : UInt32) (c : DataLookupItem) (cs : List DataLookupItem) :
    lastStart offset (c :: cs) = lastStart c.start cs := by
  cases cs with
  | nil => rfl
  | cons d ds =>
    unfold lastStart
    rw [List.getLast?_cons_cons]
    cases h : (d :: ds).getLast? with
    | none => simp at h
    | some x => rfl

/-- The application and the start of a range. -/
def item (x : AppId × DataLookupRange) : DataLookupItem := ⟨x.1, x.2.start⟩

theorem expand_nil (size : UInt32) (p : AppId) (a : UInt32) :
    expand size p a [] = if a < size then [(p, ⟨a, size⟩)] else [] := by
  by_cases h : a < size <;> simp [expand, DataLookupRange.isEmpty, -UInt32.not_lt, h]

/-- The ids and starts are those of the items, without the last when its range is empty. -/
theorem items_expand (size : UInt32) (p : AppId) (a : UInt32) (cs : List DataLookupItem) :
    (expand size p a cs).map item =
      if lastStart a cs < size then ⟨p, a⟩ :: cs else (⟨p, a⟩ :: cs).dropLast := by
  induction cs generalizing p a with
  | nil =>
    rw [expand_nil, lastStart_nil]
    split_ifs <;> rfl
  | cons c cs ih =>
    rw [expand, List.map_cons, ih, lastStart_cons, List.dropLast_cons_cons]
    split_ifs <;> rfl

theorem head?_expand_start {size : UInt32} {p : AppId} {a : UInt32} {cs : List DataLookupItem}
    {x : AppId × DataLookupRange} (hx : x ∈ (expand size p a cs).head?) : x.2.start = a := by
  cases cs with
  | nil =>
    rw [expand_nil] at hx
    split_ifs at hx
    · cases hx
      rfl
    · cases hx
  | cons c cs =>
    cases hx
    rfl

/-- Each range starts where the one before it ends. -/
theorem adjacent_expand (size : UInt32) (p : AppId) (a : UInt32) (cs : List DataLookupItem) :
    (expand size p a cs).IsChain fun x y => x.2.end_ = y.2.start := by
  induction cs generalizing p a with
  | nil =>
    rw [expand_nil]
    split_ifs
    · exact List.IsChain.singleton _
    · exact List.IsChain.nil
  | cons c cs ih =>
    rw [expand]
    exact (ih c.appId c.start).cons fun y hy => (head?_expand_start hy).symm

/-- The ranges end after they start when the starts never decrease. -/
theorem start_le_end_expand {size : UInt32} {p : AppId} {a : UInt32} {cs : List DataLookupItem} :
    (∀ x ∈ expand size p a cs, x.2.start ≤ x.2.end_) ↔ (a :: cs.map (·.start)).IsChain (· ≤ ·) := by
  induction cs generalizing p a with
  | nil =>
    rw [expand_nil]
    split_ifs with h
    · simpa using UInt32.le_of_lt h
    · simp
  | cons c cs ih =>
    rw [expand, List.forall_mem_cons, ih, List.map_cons, List.isChain_cons_cons]

/-- The vector is not empty unless there is nothing to push. -/
theorem expand_eq_nil_iff {size : UInt32} {p : AppId} {a : UInt32} {cs : List DataLookupItem} :
    expand size p a cs = [] ↔ cs = [] ∧ ¬ a < size := by
  cases cs with
  | nil => simp [expand_nil]
  | cons c cs => simp [expand]

/-- Where the last range ends. -/
theorem getLast?_expand_end {size : UInt32} {p : AppId} {a : UInt32} {cs : List DataLookupItem}
    {x : AppId × DataLookupRange} (hx : x ∈ (expand size p a cs).getLast?) :
    x.2.end_ = if lastStart a cs < size then size else lastStart a cs := by
  induction cs generalizing p a with
  | nil =>
    rw [expand_nil] at hx
    rw [lastStart_nil]
    split_ifs at hx with h
    · rw [List.getLast?_singleton, Option.mem_def, Option.some.injEq] at hx
      rw [← hx, if_pos h]
    · cases hx
  | cons c cs ih =>
    rw [expand] at hx
    rw [lastStart_cons]
    by_cases hnil : expand size c.appId c.start cs = []
    · obtain ⟨rfl, hlt⟩ := expand_eq_nil_iff.mp hnil
      rw [hnil, List.getLast?_singleton, Option.mem_def, Option.some.injEq] at hx
      rw [← hx, lastStart_nil, if_neg hlt]
    · obtain ⟨y, ys, hy⟩ := List.exists_cons_of_ne_nil hnil
      rw [hy, List.getLast?_cons_cons, ← hy] at hx
      exact ih hx

/-- What `try_from` accepts, other than an error marker. -/
theorem tryFrom_eq_ok_iff {c : CompactDataLookup} (hc : c.isError = false) {l : DataLookup} :
    tryFrom c = .ok l ↔ c.index.length + 1 < usizeLimit ∧
      l = ⟨expand c.size ⟨0⟩ 0 c.index⟩ ∧ l.len = c.size := by
  simp only [tryFrom, hc, Bool.false_eq_true, if_false, Except.bind_eq_ok, Run.ensure_eq_ok,
    decide_eq_true_eq, Except.pure_eq_ok, Except.ok.injEq, beq_iff_eq]
  constructor
  · intro h
    obtain ⟨-, hlen, -, hsize, rfl⟩ := h
    exact ⟨hlen, rfl, hsize⟩
  · intro h
    obtain ⟨hlen, rfl, hsize⟩ := h
    exact ⟨(), hlen, (), hsize, rfl⟩

/-- Without the error marker, only an empty lookup has size 0. -/
theorem index_eq_nil_of_size {c : CompactDataLookup} (hc : c.isError = false) (h : c.size = 0) :
    c.index = [] := by
  have hne : ¬ (0 : UInt32) = u32Max := by decide
  simpa [CompactDataLookup.isError, h, hne] using hc

/-- What the length check leaves: the items end at `size`. -/
theorem lastStart_of_len {size : UInt32} {cs : List DataLookupItem} (hcs : cs ≠ [])
    (hlen : (DataLookup.mk (expand size ⟨0⟩ 0 cs)).len = size) (hlt : ¬ lastStart 0 cs < size) :
    lastStart 0 cs = size := by
  have hne : expand size ⟨0⟩ 0 cs ≠ [] := fun h => hcs (expand_eq_nil_iff.mp h).1
  obtain ⟨x, hx⟩ := Option.ne_none_iff_exists'.mp fun h => hne (List.getLast?_eq_none_iff.mp h)
  have hend := getLast?_expand_end hx
  rw [if_neg hlt] at hend
  rw [← hend]
  simpa only [DataLookup.len, hx] using hlen

/-! ### The compact form of a built lookup -/

/-- What `from_data_lookup` makes of the ranges of sorted items. -/
def compactItems (o : ℕ) (items : List (AppId × ℕ)) : List DataLookupItem := (ranges o items).map item

/-- Items with ids other than 0 are all kept. -/
theorem filter_compactItems (o : ℕ) {items : List (AppId × ℕ)} (h : ∀ x ∈ items, x.1 ≠ ⟨0⟩) :
    (compactItems o items).filter (fun c => c.appId ≠ ⟨0⟩) = compactItems o items := by
  rw [List.filter_eq_self]
  intro c hc
  obtain ⟨x, hx, rfl⟩ := List.mem_map.mp hc
  have hid : x.1 ∈ items.map Prod.fst := by
    rw [← map_fst_ranges o items]
    exact List.mem_map_of_mem hx
  obtain ⟨y, hy, hxy⟩ := List.mem_map.mp hid
  have hne := h y hy
  rw [hxy] at hne
  exact decide_eq_true hne

/-- The loop rebuilds the ranges of items from their starts, after the range they end. -/
theorem expand_compactItems {p : AppId} {a : UInt32} {o : ℕ} {items : List (AppId × ℕ)}
    (hpos : ∀ x ∈ items, 0 < x.2) (hlt : o + total items < 2 ^ 32)
    (ha : items = [] → a < UInt32.ofNat o) :
    expand (UInt32.ofNat (o + total items)) p a (compactItems o items) =
      (p, ⟨a, UInt32.ofNat o⟩) :: ranges o items := by
  induction items generalizing p a o with
  | nil =>
    rw [compactItems, ranges, List.map_nil, expand_nil, total_nil, Nat.add_zero, if_pos (ha rfl)]
  | cons x items ih =>
    obtain ⟨id, len⟩ := x
    have hlen : 0 < len := hpos (id, len) (List.mem_cons_self ..)
    rw [total_cons] at hlt
    have hstart : UInt32.ofNat o < UInt32.ofNat (o + len) := by
      rw [UInt32.lt_iff_toNat_lt, toNat_ofNat_of_lt (by omega), toNat_ofNat_of_lt (by omega)]
      omega
    have hrest := @ih id (UInt32.ofNat o) (o + len) (fun y hy => hpos y (List.mem_cons_of_mem _ hy))
      (by omega) fun _ => hstart
    rw [total_cons, ← Nat.add_assoc]
    simp only [compactItems, ranges, List.map_cons, item, expand] at hrest ⊢
    rw [hrest]

/-- A first item with id 0 is left out. -/
theorem filter_compactItems_zero (len : ℕ) {items : List (AppId × ℕ)} (h : ∀ x ∈ items, x.1 ≠ ⟨0⟩) :
    (compactItems 0 ((⟨0⟩, len) :: items)).filter (fun c => c.appId ≠ ⟨0⟩) = compactItems len items := by
  rw [← filter_compactItems len h]
  simp [compactItems, ranges, item]

/-- Past the first item of sorted ones, no id is 0. -/
theorem ne_zero_of_sorted {x : AppId × ℕ} {items : List (AppId × ℕ)}
    (h : (x :: items).Pairwise fun a b => a.1 < b.1) : ∀ y ∈ items, y.1 ≠ ⟨0⟩ := by
  intro y hy
  have hlt := (List.pairwise_cons.mp h).1 y hy
  exact AppId.zero_lt_iff.mp (lt_of_le_of_lt (Nat.zero_le x.1.val.toNat) hlt)

namespace Layout

variable (L : Layout)

/-- The first id is 0, or none is. -/
theorem zero_notMem_ids (h : ¬ ∀ x ∈ L.items.head?, x.1 = ⟨0⟩) : ⟨0⟩ ∉ L.items.map Prod.fst := by
  obtain ⟨items, hsorted, hpos, hlt⟩ := L
  cases items with
  | nil => simp
  | cons x rest =>
    rw [List.mem_map]
    rintro ⟨y, hy, hzero⟩
    rcases List.mem_cons.mp hy with rfl | hy
    · apply h
      simp [hzero]
    · exact ne_zero_of_sorted hsorted y hy hzero

/-- The applications that the compact form keeps. -/
theorem fromDataLookup_lookup : fromDataLookup L.lookup =
    { index := compactItems 0 L.items |>.filter fun c => c.appId ≠ ⟨0⟩
      size := UInt32.ofNat (total L.items) } := by
  have herr : L.lookup.isError = false := by
    rw [DataLookup.isError, DataLookup.isEmpty, L.lookup_len]
    by_cases hnil : L.items = []
    · simp [Layout.lookup, hnil, ranges]
    · have hpos : 0 < total L.items :=
        lt_of_lt_of_le (List.length_pos_iff.mpr hnil) L.length_le_total
      have hne : UInt32.ofNat (total L.items) ≠ 0 := by
        rw [Ne, ← UInt32.toNat_inj, toNat_ofNat_of_lt L.total_lt]
        exact hpos.ne'
      simp [hne]
  have hsize : (L.lookup.index.getLast?.elim 0 fun x => x.2.end_) = UInt32.ofNat (total L.items) := by
    rw [← L.lookup_len, DataLookup.len]
    cases L.lookup.index.getLast? <;> rfl
  rw [CompactDataLookup.fromDataLookup, herr, if_neg Bool.false_ne_true, hsize, compactItems,
    List.filter_map]
  rfl

/-- The compact form has no more items than the layout has chunks. -/
theorem length_fromDataLookup_le : (fromDataLookup L.lookup).index.length ≤ total L.items := by
  have hkept : (fromDataLookup L.lookup).index.length ≤ L.items.length := by
    rw [L.fromDataLookup_lookup]
    exact (List.length_filter_le _ _).trans (by simp [compactItems])
  exact hkept.trans L.length_le_total

/-- The compact form of a layout is not an error marker unless it has `u32::MAX` chunks. -/
theorem isError_fromDataLookup :
    (fromDataLookup L.lookup).isError = true ↔ total L.items = 2 ^ 32 - 1 := by
  have hmax : UInt32.ofNat (total L.items) = u32Max ↔ total L.items = 2 ^ 32 - 1 := by
    rw [← UInt32.toNat_inj, toNat_ofNat_of_lt L.total_lt, toNat_u32Max]
  rw [L.fromDataLookup_lookup, CompactDataLookup.isError, Bool.or_eq_true, beq_iff_eq, hmax,
    Bool.and_eq_true, beq_iff_eq]
  constructor
  · intro h
    rcases h with h | h
    · exact h
    · -- a size of 0 means no items, and then nothing is kept
      obtain ⟨hzero, hne⟩ := h
      rw [← UInt32.toNat_inj, toNat_ofNat_of_lt L.total_lt] at hzero
      have hle := L.length_le_total
      have hnil : L.items = [] := List.length_eq_zero_iff.mp (by simp at hzero; omega)
      simp [hnil, compactItems, ranges] at hne
  · intro h
    exact Or.inl h

/-- The loop rebuilds the ranges, after an empty one for id 0 unless the first id is 0. -/
theorem expand_fromDataLookup : expand (UInt32.ofNat (total L.items)) ⟨0⟩ 0 (fromDataLookup L.lookup).index =
    if ∀ x ∈ L.items.head?, x.1 = ⟨0⟩ then L.lookup.index else (⟨0⟩, ⟨0, 0⟩) :: L.lookup.index := by
  rw [L.fromDataLookup_lookup, Layout.lookup]
  obtain ⟨items, hsorted, hpos, hlt⟩ := L
  dsimp only
  cases items with
  | nil => simp [compactItems, ranges, expand_nil]
  | cons x rest =>
    obtain ⟨id, len⟩ := x
    have hrest := ne_zero_of_sorted hsorted
    rw [total_cons] at hlt
    simp only [List.head?_cons, Option.mem_def, Option.some.injEq, forall_eq', total_cons]
    by_cases hid : id = ⟨0⟩
    · -- the first item is the one the compact form leaves out
      have hlen : 0 < len := hpos (id, len) (List.mem_cons_self ..)
      have hstart : (0 : UInt32) < UInt32.ofNat len := by
        rw [UInt32.lt_iff_toNat_lt, toNat_ofNat_of_lt (by omega)]
        exact hlen
      have hexp := @expand_compactItems ⟨0⟩ 0 len rest (fun y hy => hpos y (List.mem_cons_of_mem _ hy))
        hlt fun _ => hstart
      rw [if_pos hid, hid, filter_compactItems_zero len hrest, hexp]
      simp [ranges]
    · -- every item is kept, the first ending an empty range of id 0
      have hkept : ∀ y ∈ (id, len) :: rest, y.1 ≠ ⟨0⟩ := List.forall_mem_cons.mpr ⟨hid, hrest⟩
      have hexp := @expand_compactItems ⟨0⟩ 0 0 ((id, len) :: rest) hpos
        (by rw [total_cons, Nat.zero_add]; exact hlt) (by simp)
      rw [total_cons, Nat.zero_add] at hexp
      rw [if_neg hid, filter_compactItems 0 hkept, hexp]
      rfl

/-- **What a built lookup comes back as**: itself when it is empty or its first id is 0, and else
with an empty range for `AppId(0)` in front. -/
theorem tryFrom_fromDataLookup (h : total L.items ≠ 2 ^ 32 - 1) :
    tryFrom (fromDataLookup L.lookup) = .ok
      (if ∀ x ∈ L.items.head?, x.1 = ⟨0⟩ then L.lookup
        else ⟨(⟨0⟩, ⟨0, 0⟩) :: L.lookup.index⟩) := by
  have herr : (fromDataLookup L.lookup).isError = false := by
    rw [← Bool.not_eq_true, L.isError_fromDataLookup]
    exact h
  have hlen : (fromDataLookup L.lookup).index.length + 1 < usizeLimit := by
    have := L.length_fromDataLookup_le
    have := L.total_lt
    have hlimit : 2 ^ 32 + 1 < usizeLimit := by decide
    omega
  have hsize : (fromDataLookup L.lookup).size = UInt32.ofNat (total L.items) := by rw [L.fromDataLookup_lookup]
  rw [tryFrom_eq_ok_iff herr, hsize, L.expand_fromDataLookup]
  by_cases hfirst : ∀ x ∈ L.items.head?, x.1 = ⟨0⟩
  · rw [if_pos hfirst, if_pos hfirst]
    exact ⟨hlen, rfl, L.lookup_len⟩
  · rw [if_neg hfirst, if_neg hfirst]
    refine ⟨hlen, rfl, ?_⟩
    obtain ⟨x, rest, hitems⟩ : ∃ x rest, L.items = x :: rest :=
      List.exists_cons_of_ne_nil fun hnil => hfirst (by simp [hnil])
    rw [← L.lookup_len, Layout.lookup, hitems, ranges, DataLookup.len, DataLookup.len, List.getLast?_cons_cons]

end Layout

/-! ### Through the compact form and back -/

/-- The lookup comes back as `r`, from its compact form and from its bytes. -/
def ComesBackAs (K : Codec CompactDataLookup) (l r : DataLookup) : Prop :=
  tryFrom (fromDataLookup l) = .ok r ∧ ∃ bs, l.encode K = some bs ∧ DataLookup.decode K bs = .ok (r, [])

theorem comesBackAs {K : Codec CompactDataLookup} {l r : DataLookup} (hr : tryFrom (fromDataLookup l) = .ok r)
    (hK : (K.encode (fromDataLookup l)).isSome) : ComesBackAs K l r := by
  obtain ⟨bs, hbs⟩ := Option.isSome_iff_exists.mp hK
  have hdec := K.decode_encode hbs []
  rw [List.append_nil] at hdec
  refine ⟨hr, bs, hbs, ?_⟩
  simp [DataLookup.decode, hdec, hr]

/-- No range of a layout is empty. -/
theorem filter_nonempty_lookup (L : Layout) :
    L.lookup.index.filter (fun x => !x.2.isEmpty) = L.lookup.index := by
  rw [List.filter_eq_self]
  intro x hx
  have hlt := L.lookup_nonempty hx
  simp [DataLookupRange.isEmpty, hlt]

/-- **Built lookups come back** with all their ranges and at most an empty one of `AppId(0)` in front,
and unchanged when there is none or the first id is 0; one of `u32::MAX` chunks, whose size is the error
marker, comes back as the error. -/
theorem built_lookup_comes_back (K : Codec CompactDataLookup)
    (hK : ∀ c : CompactDataLookup, c.index.length < 2 ^ 32 → (K.encode c).isSome) :
    (∀ items l, fromIdAndLenIter items = .ok l →
      (total items ≠ 2 ^ 32 - 1 → ∃ r, ComesBackAs K l r ∧
        r.index.filter (fun x => !x.2.isEmpty) = l.index ∧ (r = l ∨ r = ⟨(⟨0⟩, ⟨0, 0⟩) :: l.index⟩) ∧
        ((∀ x ∈ items.head?, x.1 = ⟨0⟩) → r = l)) ∧
      (total items = 2 ^ 32 - 1 → ComesBackAs K l DataLookup.newError)) ∧
    ComesBackAs K DataLookup.newEmpty DataLookup.newEmpty ∧
    ComesBackAs K DataLookup.newError DataLookup.newError := by
  refine ⟨?_, comesBackAs rfl (hK _ (by decide)), comesBackAs rfl (hK _ (by decide))⟩
  intro items l h
  obtain ⟨L, rfl, rfl⟩ := fromIdAndLenIter_eq_ok_iff.mp h
  have henc : (K.encode (fromDataLookup L.lookup)).isSome :=
    hK _ (lt_of_le_of_lt L.length_fromDataLookup_le L.total_lt)
  constructor
  · intro hmax
    have hback := L.tryFrom_fromDataLookup hmax
    refine ⟨_, comesBackAs hback henc, ?_, ?_, fun hfirst => if_pos hfirst⟩
    · split_ifs
      · exact filter_nonempty_lookup L
      · rw [List.filter_cons_of_neg (by decide), filter_nonempty_lookup L]
    · split_ifs
      · exact Or.inl rfl
      · exact Or.inr rfl
  · intro hmax
    refine comesBackAs ?_ henc
    rw [tryFrom, if_pos (L.isError_fromDataLookup.mpr hmax)]
    rfl

/-- The bytes of an item: both integers compact. -/
def scaleItem : Codec DataLookupItem :=
  (compact.prod compact).iso (fun p => ⟨⟨p.1⟩, p.2⟩) (fun c => (c.appId.val, c.start)) fun _ => rfl

/-- The bytes of a compact form: the size compact, then the vector of items. -/
def scaleCompact : Codec CompactDataLookup :=
  (compact.prod scaleItem.vec).iso (fun p => ⟨p.1, p.2⟩) (fun c => (c.size, c.index)) fun _ => rfl

theorem scaleCompact_encode_isSome (c : CompactDataLookup) (h : c.index.length < 2 ^ 32) :
    (scaleCompact.encode c).isSome :=
  Codec.prod_encode_isSome rfl (Codec.vec_encode_isSome scaleItem (fun _ _ => rfl) h)

theorem built_lookup_comes_back_scale :
    ComesBackAs scaleCompact ⟨[(⟨0⟩, ⟨0, 5⟩), (⟨3⟩, ⟨5, 9⟩)]⟩ ⟨[(⟨0⟩, ⟨0, 5⟩), (⟨3⟩, ⟨5, 9⟩)]⟩ := by
  obtain ⟨r, hback, -, -, hsame⟩ :=
    ((built_lookup_comes_back scaleCompact scaleCompact_encode_isSome).1 [(⟨0⟩, 5), (⟨3⟩, 4)]
      ⟨[(⟨0⟩, ⟨0, 5⟩), (⟨3⟩, ⟨5, 9⟩)]⟩ (by decide)).1 (by decide)
  rwa [hsame (by decide)] at hback

/-- A lookup whose first id is not 0, and one of `u32::MAX` chunks, come back as other lookups. -/
theorem built_lookup_comes_back_changed :
    (fromIdAndLenIter [(⟨1⟩, 10)] = .ok ⟨[(⟨1⟩, ⟨0, 10⟩)]⟩ ∧
      tryFrom (fromDataLookup ⟨[(⟨1⟩, ⟨0, 10⟩)]⟩) = .ok ⟨[(⟨0⟩, ⟨0, 0⟩), (⟨1⟩, ⟨0, 10⟩)]⟩) ∧
    (fromIdAndLenIter [(⟨0⟩, 4294967295)] = .ok ⟨[(⟨0⟩, ⟨0, 4294967295⟩)]⟩ ∧
      tryFrom (fromDataLookup ⟨[(⟨0⟩, ⟨0, 4294967295⟩)]⟩) = .ok ⟨[(⟨0⟩, ⟨0, 0⟩)]⟩) := by
  decide

/-! ### Accepted compact forms that are ordered -/

/-- The ids that get a range: 0 first, and not that of a last item that starts at `size`. -/
def CompactDataLookup.keptIds (c : CompactDataLookup) : List AppId :=
  if ∃ x ∈ c.index.getLast?, x.start = c.size then (⟨0⟩ :: c.index.map (·.appId)).dropLast
  else ⟨0⟩ :: c.index.map (·.appId)

/-- The starts never decrease, and the ids that get a range increase. -/
def CompactDataLookup.Increasing (c : CompactDataLookup) : Prop :=
  (c.index.map (·.start)).IsChain (· ≤ ·) ∧ c.keptIds.Pairwise (· < ·)

instance (c : CompactDataLookup) : Decidable c.Increasing :=
  inferInstanceAs (Decidable (_ ∧ _))

/-- The ids of an accepted lookup. -/
theorem ids_tryFrom {c : CompactDataLookup} {l : DataLookup} (hc : c.isError = false)
    (h : tryFrom c = .ok l) (hne : l.index ≠ []) : l.index.map Prod.fst = c.keptIds := by
  obtain ⟨-, rfl, hlen⟩ := (tryFrom_eq_ok_iff hc).mp h
  have hitems := items_expand c.size ⟨0⟩ 0 c.index
  have hids : (expand c.size ⟨0⟩ 0 c.index).map Prod.fst =
      ((expand c.size ⟨0⟩ 0 c.index).map item).map (·.appId) := by
    rw [List.map_map]
    rfl
  rw [hids, hitems]
  unfold CompactDataLookup.keptIds
  by_cases hlt : lastStart 0 c.index < c.size
  · have hlast : ¬ ∃ x ∈ c.index.getLast?, x.start = c.size := by
      intro hx
      obtain ⟨x, hx, hsize⟩ := hx
      rw [lastStart, hx, Option.elim_some, hsize] at hlt
      exact (UInt32.lt_irrefl _) hlt
    rw [if_pos hlt, if_neg hlast, List.map_cons]
  · have hcs : c.index ≠ [] := fun hnil => hne (expand_eq_nil_iff.mpr ⟨hnil, by simpa [hnil] using hlt⟩)
    have hlast : ∃ x ∈ c.index.getLast?, x.start = c.size := by
      refine ⟨c.index.getLast hcs, List.getLast?_eq_some_getLast hcs, ?_⟩
      have hsize := lastStart_of_len hcs hlen hlt
      rwa [lastStart, List.getLast?_eq_some_getLast hcs] at hsize
    rw [if_neg hlt, if_pos hlast, List.map_dropLast, List.map_cons]

/-- **An accepted compact form is ordered exactly when it increases**: `try_from` looks neither at the
ids nor at the starts. -/
theorem tryFrom_ordered_iff {c : CompactDataLookup} {l : DataLookup} (hc : c.isError = false)
    (h : tryFrom c = .ok l) : l.Ordered c.size ↔ c.Increasing := by
  have hids := ids_tryFrom hc h
  obtain ⟨-, rfl, hlen⟩ := (tryFrom_eq_ok_iff hc).mp h
  have hstarts : (∀ x ∈ expand c.size ⟨0⟩ 0 c.index, x.2.start ≤ x.2.end_) ↔
      (c.index.map (·.start)).IsChain (· ≤ ·) := by
    rw [start_le_end_expand, List.isChain_cons]
    exact and_iff_right fun y _ => UInt32.zero_le
  constructor
  · intro hord
    refine ⟨hstarts.mp hord.start_le_end, ?_⟩
    by_cases hne : expand c.size ⟨0⟩ 0 c.index = []
    · obtain ⟨hnil, -⟩ := expand_eq_nil_iff.mp hne
      simp [CompactDataLookup.keptIds, hnil]
    · rw [← hids hne, List.pairwise_map]
      exact hord.sorted
  · intro hinc
    obtain ⟨hle, hsorted⟩ := hinc
    refine ⟨?_, hstarts.mpr hle, fun x hx => head?_expand_start hx, adjacent_expand .., ?_⟩
    · by_cases hne : expand c.size ⟨0⟩ 0 c.index = []
      · simp [hne]
      · rwa [← hids hne, List.pairwise_map] at hsorted
    · intro x hx
      rw [Option.mem_def] at hx
      simpa only [DataLookup.len, hx] using hlen

theorem tryFrom_ordered_iff_two : (DataLookup.mk [(⟨0⟩, ⟨0, 5⟩), (⟨2⟩, ⟨5, 15⟩)]).Ordered 15 :=
  (@tryFrom_ordered_iff ⟨15, [⟨⟨2⟩, 5⟩]⟩ _ (by decide) (by decide)).mpr (by decide)

/-- Ids out of order are accepted. -/
theorem tryFrom_accepts_unsorted :
    (CompactDataLookup.mk 15 [⟨⟨2⟩, 5⟩, ⟨⟨1⟩, 10⟩]).isError = false ∧
    tryFrom ⟨15, [⟨⟨2⟩, 5⟩, ⟨⟨1⟩, 10⟩]⟩ = .ok ⟨[(⟨0⟩, ⟨0, 5⟩), (⟨2⟩, ⟨5, 10⟩), (⟨1⟩, ⟨10, 15⟩)]⟩ ∧
    ¬ (DataLookup.mk [(⟨0⟩, ⟨0, 5⟩), (⟨2⟩, ⟨5, 10⟩), (⟨1⟩, ⟨10, 15⟩)]).Ordered 15 :=
  ⟨by decide, by decide, fun h => absurd h.sorted (by decide)⟩

/-! ### Accepted compact forms that are what their lookup is compacted to -/

/-- No item is for `AppId(0)`, and the last one starts before `size`. -/
def CompactDataLookup.Canonical (c : CompactDataLookup) : Prop :=
  (∀ x ∈ c.index, x.appId ≠ ⟨0⟩) ∧ ∀ x ∈ c.index.getLast?, x.start ≠ c.size

instance (c : CompactDataLookup) : Decidable c.Canonical :=
  inferInstanceAs (Decidable ((∀ x ∈ c.index, x.appId ≠ ⟨0⟩) ∧ ∀ x ∈ c.index.getLast?, x.start ≠ c.size))

/-- An accepted lookup is compacted to the items with other ids than 0. -/
theorem fromDataLookup_expand {c : CompactDataLookup} (hc : c.isError = false)
    (hlen : (DataLookup.mk (expand c.size ⟨0⟩ 0 c.index)).len = c.size) :
    fromDataLookup ⟨expand c.size ⟨0⟩ 0 c.index⟩ =
      ⟨c.size, ((expand c.size ⟨0⟩ 0 c.index).map item).filter fun x => x.appId ≠ ⟨0⟩⟩ := by
  have herr : (DataLookup.mk (expand c.size ⟨0⟩ 0 c.index)).isError = false := by
    rw [DataLookup.isError, DataLookup.isEmpty, hlen]
    by_cases hzero : c.size = 0
    · rw [index_eq_nil_of_size hc hzero, hzero]
      rfl
    · simp [hzero]
  have hsize : ((expand c.size ⟨0⟩ 0 c.index).getLast?.elim 0 fun x => x.2.end_) = c.size := by
    rw [DataLookup.len] at hlen
    cases hx : (expand c.size ⟨0⟩ 0 c.index).getLast? with
    | none => simpa [hx] using hlen
    | some x => simpa [hx] using hlen
  rw [fromDataLookup, herr, if_neg Bool.false_ne_true, hsize, List.filter_map]
  rfl

/-- **An accepted compact form is what its lookup is compacted to exactly when it is canonical.** -/
theorem fromDataLookup_tryFrom {c : CompactDataLookup} {l : DataLookup} (hc : c.isError = false)
    (h : tryFrom c = .ok l) : fromDataLookup l = c ↔ c.Canonical := by
  obtain ⟨-, rfl, hlen⟩ := (tryFrom_eq_ok_iff hc).mp h
  rw [fromDataLookup_expand hc hlen, items_expand]
  have hmk : ∀ cs, (CompactDataLookup.mk c.size cs = c ↔ cs = c.index) := by
    intro cs
    obtain ⟨size, index⟩ := c
    simp
  rw [hmk, CompactDataLookup.Canonical]
  by_cases hlt : lastStart 0 c.index < c.size
  · -- every item has a range
    have hlast : ∀ x ∈ c.index.getLast?, x.start ≠ c.size := by
      intro x hx hsize
      rw [lastStart, Option.mem_def.mp hx, Option.elim_some, hsize] at hlt
      exact (UInt32.lt_irrefl _) hlt
    rw [if_pos hlt, List.filter_cons_of_neg (by decide), List.filter_eq_self, and_iff_left hlast]
    simp
  · rw [if_neg hlt]
    by_cases hnil : c.index = []
    · simp [hnil]
    · -- the last item has none, so an item is missing
      have hstart := lastStart_of_len hnil hlen hlt
      obtain ⟨x, hx⟩ := Option.ne_none_iff_exists'.mp fun hn => hnil (List.getLast?_eq_none_iff.mp hn)
      rw [lastStart, hx, Option.elim_some] at hstart
      constructor
      · intro heq
        have hlt' := congrArg List.length heq
        obtain ⟨y, ys, hy⟩ := List.exists_cons_of_ne_nil hnil
        rw [hy, List.dropLast_cons_cons, List.filter_cons_of_neg (by decide)] at hlt'
        have hle := List.length_filter_le (fun x : DataLookupItem => x.appId ≠ ⟨0⟩) (y :: ys).dropLast
        rw [List.length_dropLast, List.length_cons] at hle
        rw [List.length_cons] at hlt'
        omega
      · intro hcan
        exact absurd hstart (hcan.2 x hx)

/-- The items before a last one that starts at `size` say everything: its id gets no range. -/
theorem expand_concat_size (size : UInt32) (p id id' : AppId) (a : UInt32) (cs : List DataLookupItem) :
    expand size p a (cs ++ [⟨id, size⟩]) = expand size p a (cs ++ [⟨id', size⟩]) := by
  induction cs generalizing p a with
  | nil => simp [expand, DataLookupRange.isEmpty]
  | cons c cs ih => simp only [List.cons_append, expand, ih]

/-- An item that starts at `size` changes nothing after items that end before it. -/
theorem expand_append_size {size : UInt32} (p id : AppId) {a : UInt32} {cs : List DataLookupItem}
    (h : lastStart a cs < size) : expand size p a (cs ++ [⟨id, size⟩]) = expand size p a cs := by
  induction cs generalizing p a with
  | nil =>
    rw [lastStart_nil] at h
    rw [expand_nil, if_pos h]
    simp [expand, DataLookupRange.isEmpty]
  | cons c cs ih =>
    rw [lastStart_cons] at h
    simp only [List.cons_append, expand, ih c.appId h]

/-- An accepted form with items that end before `size`. -/
theorem lastStart_lt {c : CompactDataLookup} (hzero : c.size ≠ 0)
    (hlen : (DataLookup.mk (expand c.size ⟨0⟩ 0 c.index)).len = c.size)
    (hlast : ∀ x ∈ c.index.getLast?, x.start ≠ c.size) : lastStart 0 c.index < c.size := by
  by_contra hlt
  by_cases hnil : c.index = []
  · rw [hnil, lastStart_nil, UInt32.not_lt, UInt32.le_iff_toNat_le] at hlt
    apply hzero
    rw [← UInt32.toNat_inj]
    exact Nat.le_zero.mp hlt
  · obtain ⟨x, hx⟩ := Option.ne_none_iff_exists'.mp fun h => hnil (List.getLast?_eq_none_iff.mp h)
    have hstart := lastStart_of_len hnil hlen hlt
    rw [lastStart, hx, Option.elim_some] at hstart
    exact hlast x hx hstart

/-- The forms that no other has the lookup of: the empty one, and one without an item at `size` that
has as many items as `try_from` counts up to. -/
def CompactDataLookup.Lone (c : CompactDataLookup) : Prop :=
  c.size = 0 ∨ (∀ x ∈ c.index.getLast?, x.start ≠ c.size) ∧ usizeLimit ≤ c.index.length + 2

/-- Every other form shares its lookup: with the id of a last item at `size` changed, or with such an
item after its own. -/
theorem exists_same_lookup {c : CompactDataLookup} {l : DataLookup} (hc : c.isError = false)
    (h : tryFrom c = .ok l) (hlone : ¬ c.Lone) :
    ∃ c', c'.isError = false ∧ tryFrom c' = .ok l ∧ c' ≠ c := by
  obtain ⟨hlimit, rfl, hlen⟩ := (tryFrom_eq_ok_iff hc).mp h
  obtain ⟨hzero, hlone⟩ := not_or.mp hlone
  have herr : ∀ cs, (CompactDataLookup.mk c.size cs).isError = false := by
    intro cs
    simp only [CompactDataLookup.isError, Bool.or_eq_false_iff, beq_eq_false_iff_ne] at hc ⊢
    exact ⟨hc.1, by simp [hzero]⟩
  have hsame : ∀ cs, cs.length + 1 < usizeLimit → expand c.size ⟨0⟩ 0 cs = expand c.size ⟨0⟩ 0 c.index →
      tryFrom ⟨c.size, cs⟩ = .ok ⟨expand c.size ⟨0⟩ 0 c.index⟩ := by
    intro cs hcs heq
    rw [tryFrom_eq_ok_iff (herr cs)]
    exact ⟨hcs, by rw [heq], hlen⟩
  by_cases hlast : ∀ x ∈ c.index.getLast?, x.start ≠ c.size
  · -- there is room for one more item
    have hroom : c.index.length + 2 < usizeLimit := by
      by_contra hfull
      exact hlone ⟨hlast, not_lt.mp hfull⟩
    refine ⟨⟨c.size, c.index ++ [⟨⟨0⟩, c.size⟩]⟩, herr _, hsame _ ?_ ?_, ?_⟩
    · rw [List.length_append, List.length_singleton]
      exact hroom
    · exact expand_append_size ⟨0⟩ ⟨0⟩ (lastStart_lt hzero hlen hlast)
    · intro heq
      have := congrArg (fun c => c.index.length) heq
      simp at this
  · -- the id of the last item may be any other
    push Not at hlast
    obtain ⟨x, hx, hstart⟩ := hlast
    obtain ⟨init, hinit⟩ := List.getLast?_eq_some_iff.mp hx
    obtain ⟨id, start⟩ := x
    simp only at hstart
    subst hstart
    obtain ⟨id', hid'⟩ : ∃ id' : AppId, id' ≠ id := by
      by_cases hid : id = ⟨0⟩
      · exact ⟨⟨1⟩, by rw [hid]; decide⟩
      · exact ⟨⟨0⟩, Ne.symm hid⟩
    refine ⟨⟨c.size, init ++ [⟨id', c.size⟩]⟩, herr _, hsame _ ?_ ?_, ?_⟩
    · rw [hinit, List.length_append, List.length_singleton] at hlimit
      rwa [List.length_append, List.length_singleton]
    · rw [hinit]
      exact expand_concat_size c.size ⟨0⟩ id' id 0 init
    · intro heq
      have hitems := congrArg CompactDataLookup.index heq
      rw [hinit] at hitems
      simp only [List.append_cancel_left_eq, List.cons.injEq, DataLookupItem.mk.injEq, and_true] at hitems
      exact hid' hitems

/-- A lone form is the only one with its lookup. -/
theorem eq_of_same_lookup {c c' : CompactDataLookup} {l : DataLookup} (hc : c.isError = false)
    (h : tryFrom c = .ok l) (hc' : c'.isError = false) (h' : tryFrom c' = .ok l) (hlone : c.Lone) : c' = c := by
  obtain ⟨-, hl, hlen⟩ := (tryFrom_eq_ok_iff hc).mp h
  obtain ⟨hlimit', hl', hlen'⟩ := (tryFrom_eq_ok_iff hc').mp h'
  have hsize : c'.size = c.size := hlen'.symm.trans hlen
  suffices hindex : c'.index = c.index by
    obtain ⟨size, index⟩ := c
    obtain ⟨size', index'⟩ := c'
    simp only at hsize hindex
    rw [hsize, hindex]
  rcases hlone with hzero | ⟨hlast, hfull⟩
  · rw [index_eq_nil_of_size hc hzero, index_eq_nil_of_size hc' (hsize.trans hzero)]
  · by_cases hzero : c.size = 0
    · rw [index_eq_nil_of_size hc hzero, index_eq_nil_of_size hc' (hsize.trans hzero)]
    · have hlt : lastStart 0 c.index < c.size := lastStart_lt hzero (hl ▸ hlen) hlast
      have hitems : (expand c'.size ⟨0⟩ 0 c'.index).map item = (expand c.size ⟨0⟩ 0 c.index).map item := by
        rw [← DataLookup.mk.inj (hl.symm.trans hl')]
      rw [items_expand, items_expand, if_pos hlt] at hitems
      split_ifs at hitems
      · exact List.tail_eq_of_cons_eq hitems
      · -- the other form has one item more, and that is one too many
        have hcount := congrArg List.length hitems
        rw [List.length_dropLast, List.length_cons, List.length_cons] at hcount
        omega

/-- **Decoding and encoding again keeps the bytes exactly of the canonical forms**, and only a lone
form, which but for vectors too long to append to is the empty one, shares its lookup with no other. -/
theorem reencode_iff (K : Codec CompactDataLookup) {c : CompactDataLookup} {l : DataLookup}
    (hc : c.isError = false) (h : tryFrom c = .ok l) :
    (fromDataLookup l = c ↔ c.Canonical) ∧
    (∀ bs, K.encode c = some bs →
      DataLookup.decode K bs = .ok (l, []) ∧ (l.encode K = some bs ↔ c.Canonical)) ∧
    ((∀ c', c'.isError = false → tryFrom c' = .ok l → c' = c) ↔ c.Lone) := by
  have hcan := fromDataLookup_tryFrom hc h
  refine ⟨hcan, ?_, ?_⟩
  · intro bs hbs
    have hdec := K.decode_encode hbs []
    rw [List.append_nil] at hdec
    refine ⟨by simp [DataLookup.decode, hdec, h], ?_⟩
    rw [← hcan]
    constructor
    · intro henc
      exact K.encode_inj henc hbs
    · intro heq
      rw [DataLookup.encode, heq, hbs]
  · constructor
    · intro honly
      by_contra hlone
      obtain ⟨c', hc', h', hne⟩ := exists_same_lookup hc h hlone
      exact hne (honly c' hc' h')
    · intro hlone c' hc' h'
      exact eq_of_same_lookup hc h hc' h' hlone

/-- A canonical form comes back, but others have its lookup. -/
theorem reencode_iff_two :
    fromDataLookup ⟨[(⟨0⟩, ⟨0, 5⟩), (⟨2⟩, ⟨5, 15⟩)]⟩ = ⟨15, [⟨⟨2⟩, 5⟩]⟩ ∧
    ¬ ∀ c', c'.isError = false → tryFrom c' = .ok ⟨[(⟨0⟩, ⟨0, 5⟩), (⟨2⟩, ⟨5, 15⟩)]⟩ →
      c' = ⟨15, [⟨⟨2⟩, 5⟩]⟩ := by
  have hiff := @reencode_iff scaleCompact ⟨15, [⟨⟨2⟩, 5⟩]⟩ ⟨[(⟨0⟩, ⟨0, 5⟩), (⟨2⟩, ⟨5, 15⟩)]⟩ (by decide) (by decide)
  refine ⟨hiff.1.mpr (by decide), ?_⟩
  rw [hiff.2.2]
  intro hlone
  rcases hlone with hzero | ⟨-, hfull⟩
  · exact absurd hzero (by decide)
  · exact absurd hfull (by decide)

/-- An item for `AppId(0)` and an item that starts at `size` are lost, and the latter's lookup has
another encoding. -/
theorem reencode_loses_items :
    (tryFrom ⟨10, [⟨⟨0⟩, 5⟩]⟩ = .ok ⟨[(⟨0⟩, ⟨0, 5⟩), (⟨0⟩, ⟨5, 10⟩)]⟩ ∧
      fromDataLookup ⟨[(⟨0⟩, ⟨0, 5⟩), (⟨0⟩, ⟨5, 10⟩)]⟩ = ⟨10, []⟩) ∧
    (tryFrom ⟨5, [⟨⟨1⟩, 5⟩]⟩ = .ok ⟨[(⟨0⟩, ⟨0, 5⟩)]⟩ ∧ tryFrom ⟨5, []⟩ = .ok ⟨[(⟨0⟩, ⟨0, 5⟩)]⟩ ∧
      fromDataLookup ⟨[(⟨0⟩, ⟨0, 5⟩)]⟩ = ⟨5, []⟩) := by
  decide

end AvailCore
