import AvailCore.Foundation.Run
import AvailCore.Foundation.Word
import Mathlib.Algebra.Order.BigOperators.Group.List
import Mathlib.Data.List.Chain
import Mathlib.Order.Basic
import Mathlib.Order.Defs.LinearOrder

/-!
# The data lookup of a block

`core/src/data_lookup/mod.rs`. A block's data is the data of its applications, one
after another, in chunks; the lookup says which range of chunks belongs to which
`AppId`. `from_id_and_len_iter` builds it from the number of chunks of each
application, and refuses ids out of order, applications without data, and totals past
`u32`.

## The model

A `u32` is a `UInt32`, a `Range<u32>` a pair of them. The iterator of
`from_id_and_len_iter` is the list of its items, a length being any natural number
(the source takes any type `L` that may convert to `u32`); the closure's two captured
variables, `offset` and `maybe_prev_id`, are arguments of the recursion.

## What is proved

A `Layout` is a list of items with the three conditions the constructor checks, and its
`lookup` gives each item the range that starts where the one before it ends.
`fromIdAndLenIter_eq_ok_iff` says that the constructor succeeds on the layouts, and
returns their lookup; `Layout.lookup_ordered` that the ranges are then increasing in
id, not empty and adjacent from 0 to the number of chunks; `Layout.lookup_indexedBy` that
each is found by its id, and each chunk is in one. Of other items the first with something
wrong is refused, with its error (`fromIdAndLenIter_first_offence`).
-/

namespace AvailCore

/-- `AppId(pub u32)`. -/
structure AppId where
  /-- The number of the application. -/
  val : UInt32
  deriving DecidableEq, Repr

/-- Ids are ordered by number. -/
instance : LinearOrder AppId :=
  LinearOrder.lift' (fun id => id.val.toNat) fun a b h => by
    cases a; cases b; simpa [UInt32.toNat_inj] using h

theorem AppId.lt_iff {a b : AppId} : a < b ↔ a.val.toNat < b.val.toNat := Iff.rfl

theorem AppId.zero_lt_iff {a : AppId} : (⟨0⟩ : AppId) < a ↔ a ≠ ⟨0⟩ := by
  rw [AppId.lt_iff]
  constructor
  · rintro h rfl
    exact lt_irrefl _ h
  · intro h
    refine Nat.pos_of_ne_zero fun h0 => h ?_
    cases a
    simpa [← UInt32.toNat_inj] using h0

/-- `Range<u32>`. -/
structure DataLookupRange where
  /-- The first index. -/
  start : UInt32
  /-- The index past the last one. -/
  end_ : UInt32
  deriving DecidableEq, Repr

/-- `Range::is_empty`. -/
def DataLookupRange.isEmpty (r : DataLookupRange) : Bool := !decide (r.start < r.end_)

/-- A range with both its ends multiplied by `chunkSize`, unless one of them overflows. -/
def DataLookupRange.project (r : DataLookupRange) (chunkSize : UInt32) : Option DataLookupRange := do
  let start ← checkedMul r.start chunkSize
  let end_ ← checkedMul r.end_ chunkSize
  return ⟨start, end_⟩

/-- `data_lookup::Error`. -/
inductive DataLookupError where
  /-- Input data is not sorted by AppId. -/
  | dataNotSorted
  /-- Data is empty on AppId. -/
  | dataEmptyOn (id : AppId)
  /-- Offset overflows. -/
  | offsetOverflows
  deriving DecidableEq, Repr

/-- The ranges of chunks of the applications of a block, in order. -/
structure DataLookup where
  /-- Each `AppId` with its range. -/
  index : List (AppId × DataLookupRange)
  deriving DecidableEq, Repr

namespace DataLookup

/-- `DataLookup::len` -/
def len (l : DataLookup) : UInt32 :=
  match l.index.getLast? with
  | none => 0
  | some (_, range) => range.end_

/-- `DataLookup::is_empty` -/
def isEmpty (l : DataLookup) : Bool := l.len == 0

/-- `DataLookup::is_error` -/
def isError (l : DataLookup) : Bool := l.isEmpty && !l.index.isEmpty

/-- `DataLookup::range_of` -/
def rangeOf (l : DataLookup) (appId : AppId) : Option DataLookupRange :=
  (l.index.find? fun p => p.1 == appId).map Prod.snd

/-- `DataLookup::projected_range_of` -/
def projectedRangeOf (l : DataLookup) (appId : AppId) (chunkSize : UInt32) : Option DataLookupRange :=
  (l.rangeOf appId).bind fun range => range.project chunkSize

/-- `DataLookup::projected_ranges` -/
def projectedRanges (l : DataLookup) (chunkSize : UInt32) :
    Run DataLookupError (List (AppId × DataLookupRange)) :=
  l.index.mapM fun (id, range) => do
    let range ← Run.okOr .offsetOverflows (range.project chunkSize)
    return (id, range)

/-- The closure of `from_id_and_len_iter`, item by item, with what it captures: the
offset so far and the id before. -/
def fromIdAndLenIterFrom (offset : UInt32) (prevId : Option AppId) :
    List (AppId × ℕ) → Run DataLookupError (List (AppId × DataLookupRange))
  | [] => return []
  | (id, len) :: items => do
    -- sorted by id
    Run.ensure (prevId.all (· < id)) .dataNotSorted
    -- some data for each id
    let len ← Run.okOr .offsetOverflows (u32TryFrom len)
    Run.ensure (0 < len) (.dataEmptyOn id)
    let end_ ← Run.okOr .offsetOverflows (checkedAdd offset len)
    let index ← fromIdAndLenIterFrom end_ (some id) items
    return (id, ⟨offset, end_⟩) :: index

/-- `DataLookup::from_id_and_len_iter` -/
def fromIdAndLenIter (items : List (AppId × ℕ)) : Run DataLookupError DataLookup := do
  let index ← fromIdAndLenIterFrom 0 none items
  return ⟨index⟩

/-- `DataLookup::new_empty` -/
def newEmpty : DataLookup := ⟨[]⟩

/-- `DataLookup::new_error` -/
def newError : DataLookup := ⟨[(⟨0⟩, ⟨0, 0⟩)]⟩

end DataLookup

/-! ### Reading a range -/

/-- No range is found for an id that is not there. -/
theorem DataLookup.rangeOf_eq_none {l : DataLookup} {id : AppId} :
    l.rangeOf id = none ↔ id ∉ l.index.map Prod.fst := by
  rw [DataLookup.rangeOf, Option.map_eq_none_iff, List.find?_eq_none, List.mem_map]
  constructor
  · rintro h ⟨x, hx, rfl⟩
    exact h x hx (beq_self_eq_true _)
  · intro h x hx heq
    exact h ⟨x, hx, beq_iff_eq.mp heq⟩

/-- A range that is found is that of an entry with the id. -/
theorem DataLookup.mem_of_rangeOf {l : DataLookup} {id : AppId} {range : DataLookupRange}
    (h : l.rangeOf id = some range) : (id, range) ∈ l.index := by
  obtain ⟨⟨id', range'⟩, hfind, rfl⟩ := Option.map_eq_some_iff.mp h
  have hid := List.find?_some hfind
  rw [beq_iff_eq] at hid
  cases hid
  exact List.mem_of_find?_eq_some hfind

/-- With one item for each key, the first item with a key is the item with it. -/
theorem find?_eq_some_of_nodup {α β : Type} [DecidableEq β] {key : α → β} {xs : List α} (h : (xs.map key).Nodup)
    {b : β} {a : α} : (xs.find? fun x => key x = b) = some a ↔ a ∈ xs ∧ key a = b := by
  constructor
  · intro hfind
    have hkey := List.find?_some hfind
    exact ⟨List.mem_of_find?_eq_some hfind, of_decide_eq_true hkey⟩
  · intro ha
    cases hfind : xs.find? fun x => key x = b with
    | none => exact absurd (decide_eq_true ha.2) (List.find?_eq_none.mp hfind a ha.1)
    | some a' =>
      have hkey := List.find?_some hfind
      have heq : key a' = key a := (of_decide_eq_true hkey).trans ha.2.symm
      exact congrArg some (List.inj_on_of_nodup_map h (List.mem_of_find?_eq_some hfind) ha.1 heq)

/-- Then their order does not matter. -/
theorem find?_perm_of_nodup {α β : Type} [DecidableEq β] {key : α → β} {xs ys : List α} (h : xs.Perm ys)
    (hnodup : (xs.map key).Nodup) (b : β) : (xs.find? fun x => key x = b) = ys.find? fun x => key x = b := by
  refine Option.ext fun a => ?_
  rw [find?_eq_some_of_nodup hnodup,
    find?_eq_some_of_nodup ((h.map key).nodup_iff.mp hnodup), h.mem_iff]

/-- With distinct ids, the range of an entry is that of its id. -/
theorem DataLookup.rangeOf_eq_some {l : DataLookup} (h : (l.index.map Prod.fst).Nodup) {id : AppId}
    {range : DataLookupRange} : l.rangeOf id = some range ↔ (id, range) ∈ l.index := by
  have hfind : (l.index.find? fun p => p.1 == id) = l.index.find? fun p => p.1 = id := rfl
  rw [DataLookup.rangeOf, hfind, Option.map_eq_some_iff]
  simp only [find?_eq_some_of_nodup h]
  constructor
  · rintro ⟨⟨_, _⟩, ⟨hmem, rfl⟩, rfl⟩
    exact hmem
  · intro hmem
    exact ⟨(id, range), ⟨hmem, rfl⟩, rfl⟩

/-! ### Layouts -/

/-- The number of chunks of all items. -/
def total (items : List (AppId × ℕ)) : ℕ := (items.map Prod.snd).sum

@[simp] theorem total_nil : total [] = 0 := rfl

@[simp] theorem total_cons (x : AppId × ℕ) (items : List (AppId × ℕ)) :
    total (x :: items) = x.2 + total items := by
  simp [total]

@[simp] theorem total_append (xs ys : List (AppId × ℕ)) : total (xs ++ ys) = total xs + total ys := by
  simp [total]

/-- Each item with its range, the first starting at `o` and each next where the one before ends. -/
def ranges (o : ℕ) : List (AppId × ℕ) → List (AppId × DataLookupRange)
  | [] => []
  | (id, len) :: items => (id, ⟨UInt32.ofNat o, UInt32.ofNat (o + len)⟩) :: ranges (o + len) items

/-- Applications in order of id, each with some data, in all less than `2³²` chunks. -/
structure Layout where
  /-- Each application with the number of its chunks. -/
  items : List (AppId × ℕ)
  sorted : items.Pairwise fun a b => a.1 < b.1
  pos : ∀ x ∈ items, 0 < x.2
  total_lt : total items < 2 ^ 32

/-- The lookup of a layout. -/
def Layout.lookup (L : Layout) : DataLookup := ⟨ranges 0 L.items⟩

@[simp] theorem length_ranges (o : ℕ) (items : List (AppId × ℕ)) :
    (ranges o items).length = items.length := by
  induction items generalizing o with
  | nil => rfl
  | cons x items ih => simp [ranges, ih]

theorem map_fst_ranges (o : ℕ) (items : List (AppId × ℕ)) :
    (ranges o items).map Prod.fst = items.map Prod.fst := by
  induction items generalizing o with
  | nil => rfl
  | cons x items ih => simp [ranges, ih]

theorem ranges_append (o : ℕ) (xs ys : List (AppId × ℕ)) :
    ranges o (xs ++ ys) = ranges o xs ++ ranges (o + total xs) ys := by
  induction xs generalizing o with
  | nil => simp [ranges]
  | cons x xs ih => simp [ranges, ih, Nat.add_assoc]

/-- One turn of the closure: the id is past the one before, and there is data, which fits. -/
theorem fromIdAndLenIterFrom_cons_eq_ok_iff {offset : UInt32} {prevId : Option AppId} {id : AppId} {len : ℕ}
    {items : List (AppId × ℕ)} {index : List (AppId × DataLookupRange)} :
    DataLookup.fromIdAndLenIterFrom offset prevId ((id, len) :: items) = .ok index ↔
      (∀ p ∈ prevId, p < id) ∧ 0 < len ∧ offset.toNat + len < 2 ^ 32 ∧
      ∃ rest, DataLookup.fromIdAndLenIterFrom (UInt32.ofNat (offset.toNat + len)) (some id) items = .ok rest ∧
        index = (id, ⟨offset, UInt32.ofNat (offset.toNat + len)⟩) :: rest := by
  have hprev : prevId.all (· < id) = true ↔ ∀ p ∈ prevId, p < id := by
    cases prevId <;> simp
  simp only [DataLookup.fromIdAndLenIterFrom, Except.bind_eq_ok, Run.ensure_eq_ok, Run.okOr_eq_ok,
    Except.pure_eq_ok, Except.ok.injEq, decide_eq_true_eq, u32TryFrom_eq_some, checkedAdd_eq_some, hprev]
  constructor
  · intro h
    obtain ⟨-, hid, len32, rfl, -, hpos, end_, hend, rest, hrest, rfl⟩ := h
    have hlt := end_.toNat_lt
    rw [← hend, UInt32.ofNat_toNat]
    exact ⟨hid, by simpa [UInt32.lt_iff_toNat_lt] using hpos, by omega, rest, hrest, rfl⟩
  · intro h
    obtain ⟨hid, hpos, hlt, rest, hrest, rfl⟩ := h
    have hlen : (UInt32.ofNat len).toNat = len := toNat_ofNat_of_lt (by omega)
    refine ⟨(), hid, UInt32.ofNat len, hlen, (), ?_, _, ?_, rest, hrest, rfl⟩
    · simpa [UInt32.lt_iff_toNat_lt, hlen] using hpos
    · rw [toNat_ofNat_of_lt hlt, hlen]

/-- The closure succeeds on sorted nonempty items that fit after the offset, with their ranges. -/
theorem fromIdAndLenIterFrom_eq_ok_iff {offset : UInt32} {prevId : Option AppId} {items : List (AppId × ℕ)}
    {index : List (AppId × DataLookupRange)} :
    DataLookup.fromIdAndLenIterFrom offset prevId items = .ok index ↔
      (∀ p ∈ prevId, ∀ x ∈ items, p < x.1) ∧ (items.Pairwise fun a b => a.1 < b.1) ∧
      (∀ x ∈ items, 0 < x.2) ∧ offset.toNat + total items < 2 ^ 32 ∧ index = ranges offset.toNat items := by
  induction items generalizing offset prevId index with
  | nil =>
    have hlt := offset.toNat_lt
    simp [DataLookup.fromIdAndLenIterFrom, ranges, hlt, eq_comm]
  | cons x items ih =>
    obtain ⟨id, len⟩ := x
    rw [fromIdAndLenIterFrom_cons_eq_ok_iff, List.pairwise_cons, List.forall_mem_cons, total_cons, ranges,
      UInt32.ofNat_toNat]
    constructor
    · intro h
      obtain ⟨hprev, hpos, hlt, rest, hrest, rfl⟩ := h
      obtain ⟨hid, hsorted, hposs, htotal, rfl⟩ := ih.mp hrest
      rw [toNat_ofNat_of_lt hlt] at htotal ⊢
      refine ⟨?_, ⟨hid id rfl, hsorted⟩, ⟨hpos, hposs⟩, by omega, rfl⟩
      intro p hp
      exact List.forall_mem_cons.mpr ⟨hprev p hp, fun x hx => (hprev p hp).trans (hid id rfl x hx)⟩
    · intro h
      obtain ⟨hprev, ⟨hid, hsorted⟩, ⟨hpos, hposs⟩, htotal, rfl⟩ := h
      have hlt : offset.toNat + len < 2 ^ 32 := by omega
      refine ⟨fun p hp => hprev p hp _ (List.mem_cons_self ..), hpos, hlt, _, ih.mpr ⟨?_, hsorted, hposs, ?_, rfl⟩, ?_⟩
      · intro p hp
        cases hp
        exact hid
      · rw [toNat_ofNat_of_lt hlt]
        omega
      · rw [toNat_ofNat_of_lt hlt]

/-- **The constructor succeeds exactly on layouts, and returns their lookup.** -/
theorem fromIdAndLenIter_eq_ok_iff {items : List (AppId × ℕ)} {l : DataLookup} :
    DataLookup.fromIdAndLenIter items = .ok l ↔ ∃ L : Layout, L.items = items ∧ l = L.lookup := by
  simp only [DataLookup.fromIdAndLenIter, Except.bind_eq_ok, Except.pure_eq_ok, Except.ok.injEq,
    fromIdAndLenIterFrom_eq_ok_iff]
  constructor
  · rintro ⟨index, ⟨-, hsorted, hpos, htotal, rfl⟩, rfl⟩
    exact ⟨⟨items, hsorted, hpos, by simpa using htotal⟩, rfl, rfl⟩
  · rintro ⟨L, rfl, rfl⟩
    exact ⟨_, ⟨by simp, L.sorted, L.pos, by simpa using L.total_lt, rfl⟩, rfl⟩

/-! ### What a lookup of a layout is like -/

/-- The ordering of a lookup of `size` chunks: the ids increase, and the ranges follow one
another from 0 to `size`. -/
structure DataLookup.Ordered (l : DataLookup) (size : UInt32) : Prop where
  sorted : l.index.Pairwise fun a b => a.1 < b.1
  start_le_end : ∀ x ∈ l.index, x.2.start ≤ x.2.end_
  first : ∀ x ∈ l.index.head?, x.2.start = 0
  adjacent : l.index.IsChain fun a b => a.2.end_ = b.2.start
  last : ∀ x ∈ l.index.getLast?, x.2.end_ = size

theorem head?_ranges_start {o : ℕ} {items : List (AppId × ℕ)} {x : AppId × DataLookupRange}
    (hx : x ∈ (ranges o items).head?) : x.2.start = UInt32.ofNat o := by
  cases items with
  | nil => simp [ranges] at hx
  | cons y items =>
    simp only [ranges, List.head?_cons, Option.mem_def, Option.some.injEq] at hx
    rw [← hx]

theorem adjacent_ranges (o : ℕ) (items : List (AppId × ℕ)) :
    (ranges o items).IsChain fun a b => a.2.end_ = b.2.start := by
  induction items generalizing o with
  | nil => exact List.IsChain.nil
  | cons x items ih =>
    refine List.isChain_cons.mpr ⟨?_, ih _⟩
    intro y hy
    exact (head?_ranges_start hy).symm

theorem getLast?_ranges_end {o : ℕ} {items : List (AppId × ℕ)} {x : AppId × DataLookupRange}
    (hx : x ∈ (ranges o items).getLast?) : x.2.end_ = UInt32.ofNat (o + total items) := by
  rcases List.eq_nil_or_concat items with rfl | ⟨init, y, rfl⟩
  · simp [ranges] at hx
  · simp only [List.concat_eq_append, ranges_append, ranges, List.getLast?_append, List.getLast?_singleton,
      Option.some_or, Option.mem_def, Option.some.injEq] at hx
    rw [← hx]
    simp [Nat.add_assoc]

/-- The ranges of nonempty items that fit are not empty. -/
theorem start_lt_end_ranges {o : ℕ} {items : List (AppId × ℕ)} (hpos : ∀ x ∈ items, 0 < x.2)
    (hlt : o + total items < 2 ^ 32) {x : AppId × DataLookupRange} (hx : x ∈ ranges o items) :
    x.2.start < x.2.end_ := by
  induction items generalizing o with
  | nil => simp [ranges] at hx
  | cons y items ih =>
    rw [total_cons] at hlt
    simp only [ranges, List.mem_cons] at hx
    rcases hx with rfl | hx
    · have := hpos y (List.mem_cons_self ..)
      rw [UInt32.lt_iff_toNat_lt, toNat_ofNat_of_lt (by omega), toNat_ofNat_of_lt (by omega)]
      omega
    · exact ih (fun z hz => hpos z (List.mem_cons_of_mem _ hz)) (by omega) hx

/-- The ranges of items that fit end before the last of them does. -/
theorem end_le_ranges {o : ℕ} {items : List (AppId × ℕ)} (hlt : o + total items < 2 ^ 32)
    {x : AppId × DataLookupRange} (hx : x ∈ ranges o items) : x.2.end_.toNat ≤ o + total items := by
  induction items generalizing o with
  | nil => simp [ranges] at hx
  | cons y items ih =>
    rw [total_cons] at hlt ⊢
    simp only [ranges, List.mem_cons] at hx
    rcases hx with rfl | hx
    · rw [toNat_ofNat_of_lt (by omega)]
      omega
    · have := ih (by omega) hx
      omega

theorem counts_ranges {o : ℕ} {items : List (AppId × ℕ)} (hlt : o + total items < 2 ^ 32) :
    (ranges o items).map (fun x => (x.1, x.2.end_.toNat - x.2.start.toNat)) = items := by
  induction items generalizing o with
  | nil => rfl
  | cons y items ih =>
    rw [total_cons] at hlt
    rw [ranges, List.map_cons, ih (by omega), toNat_ofNat_of_lt (by omega), toNat_ofNat_of_lt (by omega),
      Nat.add_sub_cancel_left]

namespace Layout

variable (L : Layout)

theorem lookup_len : L.lookup.len = UInt32.ofNat (total L.items) := by
  unfold DataLookup.len
  cases h : L.lookup.index.getLast? with
  | none =>
    have hnil : L.items = [] := by simpa [Layout.lookup, ← List.length_eq_zero_iff] using h
    simp [hnil]
  | some x => simpa using getLast?_ranges_end h

theorem lookup_sorted : L.lookup.index.Pairwise fun a b => a.1 < b.1 := by
  have h : (L.lookup.index.map Prod.fst).Pairwise (· < ·) := by
    rw [Layout.lookup, map_fst_ranges, List.pairwise_map]
    exact L.sorted
  exact List.pairwise_map.mp h

theorem lookup_nonempty {x : AppId × DataLookupRange} (hx : x ∈ L.lookup.index) : x.2.start < x.2.end_ :=
  start_lt_end_ranges L.pos (by simpa using L.total_lt) hx

theorem lookup_end_le {x : AppId × DataLookupRange} (hx : x ∈ L.lookup.index) :
    x.2.end_.toNat ≤ L.lookup.len.toNat := by
  rw [L.lookup_len, toNat_ofNat_of_lt L.total_lt]
  simpa using end_le_ranges (by simpa using L.total_lt) hx

/-- The ranges count the chunks. -/
theorem counts_lookup : L.lookup.index.map (fun x => (x.1, x.2.end_.toNat - x.2.start.toNat)) = L.items :=
  counts_ranges (by simpa using L.total_lt)

/-- **The ranges of a layout are ordered, and cover all its chunks.** -/
theorem lookup_ordered : L.lookup.Ordered L.lookup.len where
  sorted := L.lookup_sorted
  start_le_end x hx := UInt32.le_of_lt (L.lookup_nonempty hx)
  first x hx := head?_ranges_start hx
  adjacent := adjacent_ranges 0 L.items
  last x hx := by
    rw [L.lookup_len]
    simpa using getLast?_ranges_end hx

/-- A layout has no more items than chunks. -/
theorem length_le_total : L.items.length ≤ total L.items := by
  have h := List.length_le_sum_of_one_le (L.items.map Prod.snd) fun n hn => by
    obtain ⟨x, hx, rfl⟩ := List.mem_map.mp hn
    exact L.pos x hx
  simpa [total] using h

end Layout

/-! ### The ranges as sums of lengths -/

theorem getElem?_ranges (o : ℕ) (items : List (AppId × ℕ)) (k : ℕ) :
    (ranges o items)[k]? = items[k]?.map fun x =>
      (x.1, ⟨UInt32.ofNat (o + total (items.take k)), UInt32.ofNat (o + total (items.take (k + 1)))⟩) := by
  induction items generalizing o k with
  | nil => simp [ranges]
  | cons y items ih =>
    rw [ranges]
    cases k with
    | zero => simp
    | succ k =>
      rw [List.getElem?_cons_succ, List.getElem?_cons_succ, ih]
      simp [Nat.add_assoc]

theorem total_take_le {items : List (AppId × ℕ)} {j k : ℕ} (h : j ≤ k) : total (items.take j) ≤ total (items.take k) := by
  obtain ⟨d, rfl⟩ := Nat.exists_eq_add_of_le h
  rw [List.take_add, total_append]
  exact Nat.le_add_right ..

theorem total_take_le_total (items : List (AppId × ℕ)) (k : ℕ) : total (items.take k) ≤ total items := by
  have h := total_append (items.take k) (items.drop k)
  rw [List.take_append_drop] at h
  omega

/-- Each chunk is counted by one of the lengths. -/
theorem exists_total_take {items : List (AppId × ℕ)} {i : ℕ} (h : i < total items) :
    ∃ k, k < items.length ∧ total (items.take k) ≤ i ∧ i < total (items.take (k + 1)) := by
  induction items generalizing i with
  | nil => exact absurd h (Nat.not_lt_zero _)
  | cons y items ih =>
    rw [total_cons] at h
    rcases lt_or_ge i y.2 with hlt | hge
    · refine ⟨0, Nat.succ_pos _, Nat.zero_le _, ?_⟩
      simpa using hlt
    · obtain ⟨k, hk, hstart, hend⟩ := @ih (i - y.2) (by omega)
      refine ⟨k + 1, Nat.succ_lt_succ hk, ?_, ?_⟩
      · rw [List.take_succ_cons, total_cons]
        omega
      · rw [List.take_succ_cons, total_cons]
        omega

/-- What a lookup is to items: each has the range from the sum of the lengths before it to the sum
with it, which is found by its id, and the ranges part the chunks. -/
structure DataLookup.IndexedBy (l : DataLookup) (items : List (AppId × ℕ)) : Prop where
  length : l.index.length = items.length
  entry : ∀ k x, items[k]? = some x → ∃ range, l.index[k]? = some (x.1, range) ∧ l.rangeOf x.1 = some range ∧
    range.start.toNat = total (items.take k) ∧ range.end_.toNat = total (items.take (k + 1))
  absent : ∀ id, id ∉ items.map Prod.fst → l.rangeOf id = none
  covers : ∀ i, i < l.len.toNat → ∃! k : ℕ, ∃ entry : AppId × DataLookupRange, l.index[k]? = some entry ∧
    entry.2.start.toNat ≤ i ∧ i < entry.2.end_.toNat
  isError : l.isError = false

namespace Layout

variable (L : Layout)

theorem toNat_total_take (k : ℕ) : (UInt32.ofNat (total (L.items.take k))).toNat = total (L.items.take k) :=
  toNat_ofNat_of_lt ((total_take_le_total L.items k).trans_lt L.total_lt)

theorem nodup_lookup : (L.lookup.index.map Prod.fst).Nodup := by
  have h : (L.lookup.index.map Prod.fst).Pairwise (· < ·) := List.pairwise_map.mpr L.lookup_sorted
  exact h.imp ne_of_lt

theorem getElem?_lookup (k : ℕ) : L.lookup.index[k]? = L.items[k]?.map fun x =>
    (x.1, ⟨UInt32.ofNat (total (L.items.take k)), UInt32.ofNat (total (L.items.take (k + 1)))⟩) := by
  simp [Layout.lookup, getElem?_ranges]

/-- A chunk is in the range that counts it. -/
theorem exists_entry_iff {k i : ℕ} : (∃ entry, L.lookup.index[k]? = some entry ∧
    entry.2.start.toNat ≤ i ∧ i < entry.2.end_.toNat) ↔
      k < L.items.length ∧ total (L.items.take k) ≤ i ∧ i < total (L.items.take (k + 1)) := by
  rw [L.getElem?_lookup]
  constructor
  · rintro ⟨entry, hentry, hi⟩
    obtain ⟨x, hx, rfl⟩ := Option.map_eq_some_iff.mp hentry
    rw [L.toNat_total_take, L.toNat_total_take] at hi
    exact ⟨(List.getElem?_eq_some_iff.mp hx).1, hi⟩
  · rintro ⟨hk, hi⟩
    refine ⟨_, by rw [List.getElem?_eq_getElem hk, Option.map_some], ?_⟩
    rwa [L.toNat_total_take, L.toNat_total_take]

/-- No two ranges have a chunk in common. -/
theorem eq_of_total_take {j k i : ℕ} (hj : total (L.items.take j) ≤ i ∧ i < total (L.items.take (j + 1)))
    (hk : total (L.items.take k) ≤ i ∧ i < total (L.items.take (k + 1))) : j = k := by
  apply le_antisymm
  · by_contra hlt
    exact absurd (hk.2.trans_le (total_take_le (not_le.mp hlt))) (not_lt.mpr hj.1)
  · by_contra hlt
    exact absurd (hj.2.trans_le (total_take_le (not_le.mp hlt))) (not_lt.mpr hk.1)

theorem isError_lookup : L.lookup.isError = false := by
  rw [DataLookup.isError, Bool.and_eq_false_iff]
  by_cases hnil : L.items = []
  · right
    simp [Layout.lookup, hnil, ranges]
  · left
    have hpos := L.length_le_total
    have hlength := List.length_pos_iff.mpr hnil
    have hlen : L.lookup.len ≠ 0 := by
      rw [L.lookup_len]
      intro hzero
      have hnat := congrArg UInt32.toNat hzero
      rw [toNat_ofNat_of_lt L.total_lt] at hnat
      exact absurd hnat (by simp; omega)
    exact beq_false_of_ne hlen

/-- **The lookup of a layout gives each item its range.** -/
theorem lookup_indexedBy : L.lookup.IndexedBy L.items where
  length := length_ranges 0 L.items
  entry := by
    intro k x hx
    have hentry := L.getElem?_lookup k
    rw [hx, Option.map_some] at hentry
    refine ⟨_, hentry, ?_, L.toNat_total_take k, L.toNat_total_take (k + 1)⟩
    exact (DataLookup.rangeOf_eq_some L.nodup_lookup).mpr (List.mem_of_getElem? hentry)
  absent := by
    intro id hid
    apply DataLookup.rangeOf_eq_none.mpr
    rwa [Layout.lookup, map_fst_ranges]
  covers := by
    intro i hi
    rw [L.lookup_len, toNat_ofNat_of_lt L.total_lt] at hi
    simp only [L.exists_entry_iff]
    obtain ⟨k, hk, hcount⟩ := exists_total_take hi
    exact ⟨k, ⟨hk, hcount⟩, fun j hj => L.eq_of_total_take hj.2 hcount⟩
  isError := L.isError_lookup

end Layout

/-! ### What is refused -/

/-- What is wrong with an item after the items before it: its order first, then its length, then the
total with it. -/
def offence (before : List (AppId × ℕ)) (item : AppId × ℕ) : Option DataLookupError :=
  if ¬ ∀ prev ∈ before.getLast?, prev.1 < item.1 then some .dataNotSorted
  else if 2 ^ 32 ≤ item.2 then some .offsetOverflows
  else if item.2 = 0 then some (.dataEmptyOn item.1)
  else if 2 ^ 32 ≤ total before + item.2 then some .offsetOverflows
  else none

/-- The first item with something wrong has `e`. -/
def FirstOffence (items : List (AppId × ℕ)) (e : DataLookupError) : Prop :=
  ∃ before x after, items = before ++ x :: after ∧ (∀ ys y zs, before = ys ++ y :: zs → offence ys y = none) ∧
    offence before x = some e

/-- One turn of the closure, after the items before. -/
theorem fromIdAndLenIterFrom_cons {before : List (AppId × ℕ)} (hlt : total before < 2 ^ 32) (x : AppId × ℕ)
    (items : List (AppId × ℕ)) :
    DataLookup.fromIdAndLenIterFrom (UInt32.ofNat (total before)) (before.getLast?.map Prod.fst) (x :: items) =
      match offence before x with
      | some e => Run.fail e
      | none => do
        let index ← DataLookup.fromIdAndLenIterFrom (UInt32.ofNat (total before + x.2)) (some x.1) items
        return (x.1, ⟨UInt32.ofNat (total before), UInt32.ofNat (total before + x.2)⟩) :: index := by
  obtain ⟨id, len⟩ := x
  have hoffset : (UInt32.ofNat (total before)).toNat = total before := toNat_ofNat_of_lt hlt
  have hprev : (before.getLast?.map Prod.fst).all (· < id) = decide (∀ prev ∈ before.getLast?, prev.1 < id) := by
    cases before.getLast? <;> simp
  rw [DataLookup.fromIdAndLenIterFrom, offence, hprev]
  by_cases hsorted : ∀ prev ∈ before.getLast?, prev.1 < id
  · rw [if_neg (not_not.mpr hsorted), decide_eq_true hsorted, Run.ensure_true, Except.ok_bind]
    by_cases hfits : len < 2 ^ 32
    · have hlen : (UInt32.ofNat len).toNat = len := toNat_ofNat_of_lt hfits
      rw [if_neg (not_le.mpr hfits), u32TryFrom, if_pos hfits, Run.okOr_some, Except.ok_bind]
      by_cases hzero : len = 0
      · rw [if_pos hzero, hzero]
        rfl
      · have hpos : 0 < UInt32.ofNat len := by
          rw [UInt32.lt_iff_toNat_lt, hlen]
          exact Nat.pos_of_ne_zero hzero
        rw [if_neg hzero, decide_eq_true hpos, Run.ensure_true, Except.ok_bind, checkedAdd, hoffset, hlen, u32TryFrom]
        by_cases hsum : total before + len < 2 ^ 32
        · rw [if_pos hsum, if_neg (not_le.mpr hsum)]
          rfl
        · rw [if_neg hsum, if_pos (not_lt.mp hsum)]
          rfl
    · rw [if_pos (not_lt.mp hfits), u32TryFrom, if_neg hfits]
      rfl
  · rw [if_pos hsorted, decide_eq_false hsorted]
    rfl

/-- The closure returns, or stops at the first item with something wrong. -/
theorem fromIdAndLenIterFrom_ok_or_fail {before : List (AppId × ℕ)} (hlt : total before < 2 ^ 32)
    (items : List (AppId × ℕ)) :
    (∃ index, DataLookup.fromIdAndLenIterFrom (UInt32.ofNat (total before)) (before.getLast?.map Prod.fst) items =
      .ok index) ∨
    ∃ mid x after e, items = mid ++ x :: after ∧
      (∀ ys y zs, mid = ys ++ y :: zs → offence (before ++ ys) y = none) ∧ offence (before ++ mid) x = some e ∧
      DataLookup.fromIdAndLenIterFrom (UInt32.ofNat (total before)) (before.getLast?.map Prod.fst) items =
        Run.fail e := by
  induction items generalizing before with
  | nil => exact Or.inl ⟨[], rfl⟩
  | cons x items ih =>
    rw [fromIdAndLenIterFrom_cons hlt]
    cases hx : offence before x with
    | some e =>
      refine Or.inr ⟨[], x, items, e, rfl, ?_, by rwa [List.append_nil], rfl⟩
      intro ys y zs h
      simp at h
    | none =>
      -- the items before are now those before and `x`
      have htotal : total (before ++ [x]) = total before + x.2 := by simp
      have hlast : (before ++ [x]).getLast?.map Prod.fst = some x.1 := by simp
      have hlt' : total (before ++ [x]) < 2 ^ 32 := by
        rw [htotal]
        unfold offence at hx
        split_ifs at hx with _ _ _ hsum
        exact not_le.mp hsum
      have hrest := ih hlt'
      rw [htotal, hlast] at hrest
      rcases hrest with ⟨index, hindex⟩ | ⟨mid, y, after, e, rfl, hmid, hy, hfail⟩
      · left
        exact ⟨_, by simp only [hindex]; rfl⟩
      · right
        refine ⟨x :: mid, y, after, e, rfl, ?_, ?_, ?_⟩
        · intro ys z zs h
          cases ys with
          | nil =>
            cases h
            rwa [List.append_nil]
          | cons w ys =>
            cases h
            simpa using hmid ys z zs rfl
        · simpa using hy
        · simp only [hfail]
          rfl

/-- The items that the constructor takes. -/
def AcceptedItems (items : List (AppId × ℕ)) : Prop :=
  (items.Pairwise fun a b => a.1 < b.1) ∧ (∀ x ∈ items, 1 ≤ x.2 ∧ x.2 < 2 ^ 32) ∧ total items < 2 ^ 32

theorem acceptedItems_iff {items : List (AppId × ℕ)} : AcceptedItems items ↔ ∃ L : Layout, L.items = items := by
  constructor
  · intro h
    exact ⟨⟨items, h.1, fun x hx => (h.2.1 x hx).1, h.2.2⟩, rfl⟩
  · rintro ⟨L, rfl⟩
    refine ⟨L.sorted, fun x hx => ⟨L.pos x hx, ?_⟩, L.total_lt⟩
    exact (List.single_le_sum (fun _ _ => Nat.zero_le _) _ (List.mem_map_of_mem hx)).trans_lt L.total_lt

/-- **The constructor takes the items in order with lengths that fit, and returns their lookup; of others
it refuses the first item with something wrong.** -/
theorem fromIdAndLenIter_first_offence (items : List (AppId × ℕ)) :
    ((∃ l, DataLookup.fromIdAndLenIter items = .ok l) ↔ AcceptedItems items) ∧
    (∀ l, DataLookup.fromIdAndLenIter items = .ok l → l.IndexedBy items) ∧
    (¬ AcceptedItems items → ∃ e, FirstOffence items e ∧ DataLookup.fromIdAndLenIter items = Run.fail e) := by
  have haccepted : (∃ l, DataLookup.fromIdAndLenIter items = .ok l) ↔ AcceptedItems items := by
    rw [acceptedItems_iff]
    simp only [fromIdAndLenIter_eq_ok_iff]
    constructor
    · rintro ⟨l, L, hL, -⟩
      exact ⟨L, hL⟩
    · rintro ⟨L, hL⟩
      exact ⟨L.lookup, L, hL, rfl⟩
  refine ⟨haccepted, ?_, ?_⟩
  · intro l hl
    obtain ⟨L, rfl, rfl⟩ := fromIdAndLenIter_eq_ok_iff.mp hl
    exact L.lookup_indexedBy
  · intro hnot
    have hempty : total [] < 2 ^ 32 := Nat.two_pow_pos 32
    rcases fromIdAndLenIterFrom_ok_or_fail hempty items with ⟨index, hindex⟩ | ⟨mid, x, after, e, h, hmid, hx, hfail⟩
    · have hrun : DataLookup.fromIdAndLenIterFrom 0 none items = .ok index := hindex
      refine absurd (haccepted.mp ⟨⟨index⟩, ?_⟩) hnot
      rw [DataLookup.fromIdAndLenIter, hrun]
      rfl
    · have hrun : DataLookup.fromIdAndLenIterFrom 0 none items = Run.fail e := hfail
      refine ⟨e, ⟨mid, x, after, h, hmid, hx⟩, ?_⟩
      rw [DataLookup.fromIdAndLenIter, hrun]
      rfl

/-! ### Projection -/

/-- The ranges of items of `k` bytes a chunk. -/
def byteRanges (k o : ℕ) : List (AppId × ℕ) → List (AppId × DataLookupRange)
  | [] => []
  | (id, len) :: items =>
    (id, ⟨UInt32.ofNat (o * k), UInt32.ofNat ((o + len) * k)⟩) :: byteRanges k (o + len) items

theorem DataLookupRange.project_eq_some {range r : DataLookupRange} {k : UInt32} : range.project k = some r ↔
    r.start.toNat = range.start.toNat * k.toNat ∧ r.end_.toNat = range.end_.toNat * k.toNat := by
  simp only [DataLookupRange.project, Option.bind_eq_bind, Option.bind_eq_some_iff, Option.pure_def,
    Option.some.injEq, checkedMul_eq_some]
  constructor
  · rintro ⟨start, hstart, end_, hend, rfl⟩
    exact ⟨hstart, hend⟩
  · rintro ⟨hstart, hend⟩
    exact ⟨r.start, hstart, r.end_, hend, rfl⟩

/-- A range that does not run backwards is projected when its end is. -/
theorem DataLookupRange.project_eq_none_iff {range : DataLookupRange} {k : UInt32} (h : range.start ≤ range.end_) :
    range.project k = none ↔ 2 ^ 32 ≤ range.end_.toNat * k.toNat := by
  have hle : range.start.toNat * k.toNat ≤ range.end_.toNat * k.toNat :=
    Nat.mul_le_mul_right _ (UInt32.le_iff_toNat_le.mp h)
  rw [Option.eq_none_iff_forall_ne_some]
  constructor
  · intro hnone
    by_contra hlt
    rw [not_le] at hlt
    refine hnone ⟨UInt32.ofNat (range.start.toNat * k.toNat), UInt32.ofNat (range.end_.toNat * k.toNat)⟩
      (DataLookupRange.project_eq_some.mpr ⟨?_, ?_⟩)
    · exact toNat_ofNat_of_lt (hle.trans_lt hlt)
    · exact toNat_ofNat_of_lt hlt
  · intro hover r hr
    have hlt := r.end_.toNat_lt
    rw [(DataLookupRange.project_eq_some.mp hr).2] at hlt
    exact absurd hlt (not_lt.mpr hover)

theorem project_eq_some_iff {a b : ℕ} {k : UInt32} {r : DataLookupRange} (ha : a < 2 ^ 32) (hb : b < 2 ^ 32)
    (hab : a ≤ b) :
    (DataLookupRange.mk (UInt32.ofNat a) (UInt32.ofNat b)).project k = some r ↔
      b * k.toNat < 2 ^ 32 ∧ r = ⟨UInt32.ofNat (a * k.toNat), UInt32.ofNat (b * k.toNat)⟩ := by
  simp only [DataLookupRange.project, Option.bind_eq_bind, Option.bind_eq_some_iff, Option.pure_def,
    Option.some.injEq, checkedMul_eq_some, toNat_ofNat_of_lt ha, toNat_ofNat_of_lt hb]
  have hle : a * k.toNat ≤ b * k.toNat := Nat.mul_le_mul_right _ hab
  constructor
  · rintro ⟨x, hx, y, hy, rfl⟩
    have := y.toNat_lt
    refine ⟨by omega, ?_⟩
    rw [← hx, ← hy]
    simp
  · rintro ⟨hlt, rfl⟩
    exact ⟨_, toNat_ofNat_of_lt (by omega), _, toNat_ofNat_of_lt hlt, rfl⟩

theorem mapM_project_ranges {k : UInt32} {o : ℕ} {items : List (AppId × ℕ)}
    {rs : List (AppId × DataLookupRange)} (hlt : o + total items < 2 ^ 32) :
    (DataLookup.mk (ranges o items)).projectedRanges k = .ok rs ↔
      (items = [] ∨ (o + total items) * k.toNat < 2 ^ 32) ∧ rs = byteRanges k.toNat o items := by
  induction items generalizing o rs with
  | nil => simp [DataLookup.projectedRanges, ranges, byteRanges, eq_comm]
  | cons x items ih =>
    obtain ⟨id, len⟩ := x
    rw [total_cons] at hlt
    have ih' := fun rs => @ih (o + len) rs (by omega)
    simp only [DataLookup.projectedRanges] at ih'
    simp only [DataLookup.projectedRanges, ranges, List.mapM_cons, Except.bind_eq_ok, Run.okOr_eq_ok,
      Except.pure_eq_ok, Except.ok.injEq, project_eq_some_iff (show o < 2 ^ 32 by omega)
        (show o + len < 2 ^ 32 by omega) (Nat.le_add_right o len), byteRanges, total_cons, reduceCtorEq,
      false_or]
    constructor
    · rintro ⟨-, ⟨-, ⟨hlen, rfl⟩, rfl⟩, rest, hrest, rfl⟩
      obtain ⟨h, rfl⟩ := (ih' rest).mp hrest
      refine ⟨?_, rfl⟩
      rcases h with rfl | h
      · simpa using hlen
      · rwa [← Nat.add_assoc]
    · rintro ⟨hall, rfl⟩
      have hle : (o + len) * k.toNat ≤ (o + (len + total items)) * k.toNat :=
        Nat.mul_le_mul_right _ (by omega)
      refine ⟨_, ⟨_, ⟨by omega, rfl⟩, rfl⟩, _, (ih' _).mpr ⟨Or.inr ?_, rfl⟩, rfl⟩
      rwa [Nat.add_assoc]

/-- The ranges of a layout are projected when its last byte has a `u32` index. -/
theorem projectedRanges_eq_ok_iff (L : Layout) {k : UInt32} {rs : List (AppId × DataLookupRange)} :
    L.lookup.projectedRanges k = .ok rs ↔
      total L.items * k.toNat < 2 ^ 32 ∧ rs = byteRanges k.toNat 0 L.items := by
  rw [Layout.lookup, mapM_project_ranges (by simpa using L.total_lt), Nat.zero_add]
  constructor
  · rintro ⟨h, rfl⟩
    refine ⟨?_, rfl⟩
    rcases h with h | h
    · simp [h]
    · exact h
  · rintro ⟨h, rfl⟩
    exact ⟨Or.inr h, rfl⟩

end AvailCore
