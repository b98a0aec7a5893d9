import AvailCore.Core.CompactDataLookup
import Mathlib.Data.List.DropRight

/-!
# A lookup that is sent on

A node that gets a header decodes its lookup, and encodes it again to hash the header or
to send it on. So the next node gets the compact form of what this one has decoded, and
this need not be the form that this one got: an item for `AppId(0)` is lost, and so is a
last item that starts at `size`.

## What is proved

What one node does is `relay_eq_ok_iff`. From it, what arrives over any number of nodes
(`relayed_settles`): a form settles, on one that the nodes no longer change, or some node
refuses it, even one that the first node has accepted. A form that increases and whose
last item starts within its size is accepted by all, and each has the same ranges that are
not empty (`relayed_ordered`).
-/

namespace AvailCore

open DataLookup

namespace CompactDataLookup

/-- What a node sends on of a compact form: that of the lookup that it decodes. -/
def relay (c : CompactDataLookup) : Run DataLookupError CompactDataLookup := do
  let lookup ← tryFrom c
  return fromDataLookup lookup

/-- What arrives over so many nodes. -/
def relayed : ℕ → CompactDataLookup → Run DataLookupError CompactDataLookup
  | 0, c => .ok c
  | n + 1, c => do
    let sent ← c.relay
    relayed n sent

/-- The items that have a range: not a last one that starts at `size`. -/
def ranged (c : CompactDataLookup) : List DataLookupItem :=
  if lastStart 0 c.index < c.size then c.index else c.index.dropLast

/-- The form that is no longer changed: without items for `AppId(0)`, and without those at its end that start at
`size`. -/
def settled (c : CompactDataLookup) : CompactDataLookup :=
  ⟨c.size, (c.index.filter fun x => x.appId ≠ ⟨0⟩).rdropWhile fun x => x.start = c.size⟩

/-- A form that all nodes accept: its last item starts within `size`, and so does the last of the settled form. -/
structure Settles (c : CompactDataLookup) : Prop where
  within : lastStart 0 c.index ≤ c.size
  settled : lastStart 0 c.settled.index ≤ c.size

end CompactDataLookup

open CompactDataLookup

/-! ### One node -/

/-- The ranges end at `size` when the last item starts within it. -/
theorem len_expand_eq_iff {size : UInt32} {cs : List DataLookupItem} :
    (DataLookup.mk (expand size ⟨0⟩ 0 cs)).len = size ↔ lastStart 0 cs ≤ size := by
  by_cases hne : expand size ⟨0⟩ 0 cs = []
  · obtain ⟨rfl, hlt⟩ := expand_eq_nil_iff.mp hne
    obtain rfl : size = 0 := UInt32.le_zero_iff.mp (UInt32.not_lt.mp hlt)
    exact iff_of_true (by rw [hne]; rfl) (UInt32.le_refl _)
  · obtain ⟨x, hx⟩ := Option.ne_none_iff_exists'.mp fun h => hne (List.getLast?_eq_none_iff.mp h)
    have hend := getLast?_expand_end hx
    rw [DataLookup.len, hx]
    show x.2.end_ = size ↔ _
    rw [hend]
    split_ifs with hlt
    · exact iff_of_true rfl (UInt32.le_of_lt hlt)
    · exact ⟨fun h => UInt32.le_of_eq h, fun h => UInt32.le_antisymm h (UInt32.not_lt.mp hlt)⟩

/-- **What one node does**: it accepts a form whose last item starts within `size`, and sends on the items that have a
range, except for those of `AppId(0)`. -/
theorem relay_eq_ok_iff {c c' : CompactDataLookup} (hc : c.isError = false) (hlen : c.index.length + 1 < usizeLimit) :
    c.relay = .ok c' ↔ lastStart 0 c.index ≤ c.size ∧ c' = ⟨c.size, c.ranged.filter fun x => x.appId ≠ ⟨0⟩⟩ := by
  have hsent : (DataLookup.mk (expand c.size ⟨0⟩ 0 c.index)).len = c.size →
      fromDataLookup ⟨expand c.size ⟨0⟩ 0 c.index⟩ = ⟨c.size, c.ranged.filter fun x => x.appId ≠ ⟨0⟩⟩ := by
    intro h
    rw [fromDataLookup_expand hc h, items_expand, ranged]
    cases hindex : c.index with
    | nil => split_ifs <;> rfl
    | cons x xs =>
      rw [List.dropLast_cons_cons]
      split_ifs <;> rfl
  simp only [relay, Except.bind_eq_ok, tryFrom_eq_ok_iff hc, Except.pure_eq_ok, Except.ok.injEq]
  constructor
  · intro h
    obtain ⟨_, ⟨-, rfl, hsize⟩, rfl⟩ := h
    exact ⟨len_expand_eq_iff.mp hsize, hsent hsize⟩
  · intro h
    obtain ⟨hle, rfl⟩ := h
    exact ⟨_, ⟨hlen, rfl, len_expand_eq_iff.mpr hle⟩, hsent (len_expand_eq_iff.mpr hle)⟩

/-- A form whose last item starts past `size` is refused. -/
theorem relay_eq_fail {c : CompactDataLookup} (hc : c.isError = false) (hlen : c.index.length + 1 < usizeLimit)
    (h : ¬ lastStart 0 c.index ≤ c.size) : c.relay = Run.fail .dataNotSorted := by
  have hsize : ¬ ((DataLookup.mk (expand c.size ⟨0⟩ 0 c.index)).len == c.size) = true :=
    fun heq => h (len_expand_eq_iff.mp (beq_iff_eq.mp heq))
  simp only [relay, tryFrom, hc, Bool.false_eq_true, if_false, decide_eq_true hlen, Run.ensure_true, Except.ok_bind,
    Bool.eq_false_iff.mpr hsize]
  rfl

@[simp] theorem lastStart_concat (offset : UInt32) (cs : List DataLookupItem) (x : DataLookupItem) :
    lastStart offset (cs ++ [x]) = x.start := by
  rw [lastStart, List.getLast?_concat, Option.elim_some]

namespace CompactDataLookup

variable {c : CompactDataLookup}

theorem ranged_concat {size : UInt32} {cs : List DataLookupItem} {x : DataLookupItem} :
    ranged ⟨size, cs ++ [x]⟩ = if x.start < size then cs ++ [x] else cs := by
  rw [ranged, lastStart_concat, List.dropLast_concat]

theorem ranged_nil (size : UInt32) : ranged ⟨size, []⟩ = [] := by
  rw [ranged]
  split_ifs <;> rfl

theorem ranged_sublist (c : CompactDataLookup) : c.ranged.Sublist c.index := by
  rw [ranged]
  split_ifs
  · exact List.Sublist.refl _
  · exact List.dropLast_sublist _

/-- What is sent on is not an error marker. -/
theorem isError_sent (hc : c.isError = false) {cs : List DataLookupItem} (hcs : cs.Sublist c.index) :
    (CompactDataLookup.mk c.size cs).isError = false := by
  have hmax : (c.size == u32Max) = false := (Bool.or_eq_false_iff.mp hc).1
  rw [isError, hmax, Bool.false_or, Bool.and_eq_false_iff]
  by_cases hzero : c.size = 0
  · rw [index_eq_nil_of_size hc hzero, List.sublist_nil] at hcs
    exact Or.inr (by rw [hcs]; rfl)
  · exact Or.inl (beq_eq_false_iff_ne.mpr hzero)

/-- What is sent on settles on the same form. -/
theorem settled_sent (hle : lastStart 0 c.index ≤ c.size) :
    settled ⟨c.size, c.ranged.filter fun x => x.appId ≠ ⟨0⟩⟩ = c.settled := by
  obtain ⟨size, index⟩ := c
  simp only [settled, List.filter_filter, Bool.and_self]
  rcases List.eq_nil_or_concat' index with rfl | ⟨cs, x, rfl⟩
  · rw [ranged_nil]
  · rw [ranged_concat]
    split_ifs with hlt
    · rfl
    · have hstart : x.start = size := by
        rw [lastStart_concat] at hle
        exact UInt32.le_antisymm hle (UInt32.not_lt.mp hlt)
      rw [List.filter_append]
      by_cases hx : x.appId = ⟨0⟩
      · simp [hx]
      · have hone : [x].filter (fun x => x.appId ≠ ⟨0⟩) = [x] := by simp [hx]
        rw [hone, List.rdropWhile_concat_pos _ _ _ (by simpa using hstart)]

/-- A form without items for `AppId(0)` is accepted if the settled one is. -/
theorem within_of_settled (hkeep : c.index.filter (fun x => x.appId ≠ ⟨0⟩) = c.index)
    (h : lastStart 0 c.settled.index ≤ c.size) : lastStart 0 c.index ≤ c.size := by
  obtain ⟨size, index⟩ := c
  rw [settled, hkeep] at h
  rcases List.eq_nil_or_concat' index with rfl | ⟨cs, x, rfl⟩
  · exact UInt32.zero_le
  · by_cases hx : x.start = size
    · rw [lastStart_concat]
      exact UInt32.le_of_eq hx
    · rwa [List.rdropWhile_concat_neg _ _ _ (by simpa using hx)] at h

/-- A form of which every item is sent on is settled. -/
theorem settled_eq_self (h : c.ranged.filter (fun x => x.appId ≠ ⟨0⟩) = c.index) : c.settled = c := by
  have hranged : c.ranged = c.index := by
    refine c.ranged_sublist.eq_of_length_le ?_
    rw [← h]
    exact List.length_filter_le ..
  rw [hranged] at h
  obtain ⟨size, index⟩ := c
  rw [settled, h]
  rcases List.eq_nil_or_concat' index with rfl | ⟨cs, x, rfl⟩
  · rfl
  · rw [ranged_concat] at hranged
    have hx : x.start ≠ size := by
      intro hx
      rw [hx, if_neg (UInt32.lt_irrefl _), List.self_eq_append_right] at hranged
      cases hranged
    rw [List.rdropWhile_concat_neg _ _ _ (by simpa using hx)]

end CompactDataLookup

/-! ### Any number of nodes -/

section Nodes

variable {c : CompactDataLookup}

theorem relayed_add (m n : ℕ) (c : CompactDataLookup) :
    relayed (m + n) c = (do let sent ← relayed m c; relayed n sent) := by
  induction m generalizing c with
  | zero => rw [Nat.zero_add, relayed, Except.ok_bind]
  | succ m ih =>
    rw [Nat.succ_add, relayed, relayed, bind_assoc]
    exact bind_congr fun sent => ih sent

/-- What a node does not change, no node does. -/
theorem relayed_of_relay_eq (h : c.relay = .ok c) (n : ℕ) : relayed n c = .ok c := by
  induction n with
  | zero => rfl
  | succ n ih => rw [relayed, h, Except.ok_bind, ih]

variable (hc : c.isError = false) (hlen : c.index.length + 1 < usizeLimit)
include hc hlen

/-- One node leaves a form as it is, which is then settled, or sends on fewer items. -/
theorem relay_cases (hle : lastStart 0 c.index ≤ c.size) : (c.relay = .ok c ∧ c.settled = c) ∨
    ∃ sent : CompactDataLookup, c.relay = .ok sent ∧ sent.size = c.size ∧ sent.index.length < c.index.length ∧
      sent.index.filter (fun x => x.appId ≠ ⟨0⟩) = sent.index ∧ sent.isError = false ∧ sent.settled = c.settled := by
  have hsublist : (c.ranged.filter fun x => x.appId ≠ ⟨0⟩).Sublist c.index :=
    List.filter_sublist.trans c.ranged_sublist
  have hrelay := (relay_eq_ok_iff hc hlen).mpr ⟨hle, rfl⟩
  by_cases hall : (c.ranged.filter fun x => x.appId ≠ ⟨0⟩) = c.index
  · left
    refine ⟨?_, settled_eq_self hall⟩
    rw [hrelay, hall]
  · right
    refine ⟨_, hrelay, rfl, ?_, ?_, isError_sent hc hsublist, settled_sent hle⟩
    · exact lt_of_le_of_ne hsublist.length_le fun heq => hall (hsublist.eq_of_length heq)
    · simp only [List.filter_filter, Bool.and_self]

omit hc hlen in
/-- What is sent on is accepted if it settles. -/
theorem CompactDataLookup.Settles.sent (h : c.Settles) {sent : CompactDataLookup} (hsize : sent.size = c.size)
    (hkeep : sent.index.filter (fun x => x.appId ≠ ⟨0⟩) = sent.index) (hsettled : sent.settled = c.settled) :
    sent.Settles := by
  have hwithin : lastStart 0 sent.settled.index ≤ sent.size := by
    rw [hsettled, hsize]
    exact h.settled
  exact ⟨within_of_settled hkeep hwithin, hwithin⟩

/-- Over as many nodes as there are items, the form has settled. -/
theorem relayed_eq_settled (h : c.Settles) {n : ℕ} (hn : c.index.length ≤ n) : relayed n c = .ok c.settled := by
  induction n generalizing c with
  | zero =>
    have hnil : c.index = [] := List.length_eq_zero_iff.mp (Nat.le_zero.mp hn)
    obtain ⟨size, index⟩ := c
    subst hnil
    rfl
  | succ n ih =>
    obtain ⟨hrelay, hsettled⟩ | ⟨sent, hrelay, hsize, hlt, hkeep, hsent, hsettled⟩ := relay_cases hc hlen h.within
    · rw [relayed_of_relay_eq hrelay, hsettled]
    · rw [relayed, hrelay, Except.ok_bind, ← hsettled]
      exact ih hsent (by omega) (h.sent hsize hkeep hsettled) (by omega)

/-- A form that does not settle is refused, by one of as many nodes as there are items, or by the next. -/
theorem relayed_eq_fail (h : ¬ c.Settles) {n : ℕ} (hn : c.index.length < n) :
    relayed n c = Run.fail .dataNotSorted := by
  induction n generalizing c with
  | zero => exact absurd hn (Nat.not_lt_zero _)
  | succ n ih =>
    by_cases hle : lastStart 0 c.index ≤ c.size
    · obtain ⟨-, hsettled⟩ | ⟨sent, hrelay, hsize, hlt, -, hsent, hsettled⟩ := relay_cases hc hlen hle
      · exact absurd ⟨hle, by rwa [hsettled]⟩ h
      · rw [relayed, hrelay, Except.ok_bind]
        refine ih hsent (by omega) (fun hsent' => h ⟨hle, ?_⟩) (by omega)
        rw [← hsettled, ← hsize]
        exact hsent'.settled
    · rw [relayed, relay_eq_fail hc hlen hle]
      rfl

/-- No node changes the settled form. -/
theorem relay_settled (h : c.Settles) : c.settled.relay = .ok c.settled := by
  have hsettled := relayed_eq_settled hc hlen h (Nat.le_refl _)
  have hnext := @relayed_eq_settled c hc hlen h (c.index.length + 1) (Nat.le_succ _)
  rw [relayed_add, hsettled, Except.ok_bind, relayed,
    Except.bind_eq_ok] at hnext
  obtain ⟨sent, hrelay, hsent⟩ := hnext
  rw [hrelay, ← hsent]
  rfl

/-- **A form that is sent on settles, or is refused by some node**: over as many nodes as there are items it is the
settled form, which no node changes, or, when its own last item or that of the settled form starts past `size`, a node
has refused it. -/
theorem relayed_settles :
    (c.Settles → (∀ n, ∃ sent, relayed n c = .ok sent) ∧ (∀ n ≥ c.index.length, relayed n c = .ok c.settled) ∧
      c.settled.relay = .ok c.settled) ∧
    (¬ c.Settles → ∀ n > c.index.length, relayed n c = Run.fail .dataNotSorted) := by
  refine ⟨fun h => ?_, fun h n hn => relayed_eq_fail hc hlen h hn⟩
  have hsettled : ∀ n ≥ c.index.length, relayed n c = .ok c.settled := fun n hn => relayed_eq_settled hc hlen h hn
  refine ⟨fun n => ?_, hsettled, relay_settled hc hlen h⟩
  have hlater := hsettled (n + c.index.length) (Nat.le_add_left ..)
  rw [relayed_add, Except.bind_eq_ok] at hlater
  obtain ⟨sent, hsent, -⟩ := hlater
  exact ⟨sent, hsent⟩

end Nodes

/-- Two items at the end that start at `size` are lost, one at each node; a form that the first node accepts is refused
by the second, where the item that is left starts past `size`; and one is refused for its own last item, which the
settled form is without. -/
theorem relayed_settles_two :
    relayed 3 ⟨5, [⟨⟨1⟩, 3⟩, ⟨⟨2⟩, 5⟩, ⟨⟨3⟩, 5⟩]⟩ = .ok ⟨5, [⟨⟨1⟩, 3⟩]⟩ ∧
    (CompactDataLookup.mk 5 [⟨⟨1⟩, 7⟩, ⟨⟨2⟩, 5⟩]).relay = .ok ⟨5, [⟨⟨1⟩, 7⟩]⟩ ∧
    relayed 3 ⟨5, [⟨⟨1⟩, 7⟩, ⟨⟨2⟩, 5⟩]⟩ = Run.fail .dataNotSorted ∧
    relayed 3 ⟨5, [⟨⟨1⟩, 3⟩, ⟨⟨0⟩, 7⟩]⟩ = Run.fail .dataNotSorted := by
  refine ⟨?_, by decide, ?_, ?_⟩
  · exact ((@relayed_settles ⟨5, [⟨⟨1⟩, 3⟩, ⟨⟨2⟩, 5⟩, ⟨⟨3⟩, 5⟩]⟩ (by decide) (by decide)).1 ⟨by decide, by decide⟩).2.1 3
      (by decide)
  · refine (@relayed_settles ⟨5, [⟨⟨1⟩, 7⟩, ⟨⟨2⟩, 5⟩]⟩ (by decide) (by decide)).2 (fun h => ?_) 3 (by decide)
    exact absurd h.settled (by decide)
  · refine (@relayed_settles ⟨5, [⟨⟨1⟩, 3⟩, ⟨⟨0⟩, 7⟩]⟩ (by decide) (by decide)).2 (fun h => ?_) 3 (by decide)
    exact absurd h.within (by decide)

/-! ### Forms that increase -/

/-- The ranges of a lookup that have chunks. -/
def DataLookup.nonempty (l : DataLookup) : List (AppId × DataLookupRange) := l.index.filter fun x => !x.2.isEmpty

/-- An item at the end that starts at `size` adds no chunks. -/
theorem nonempty_expand_concat {size : UInt32} {x : DataLookupItem} (hx : x.start = size) (p : AppId) (a : UInt32)
    (cs : List DataLookupItem) : (DataLookup.mk (expand size p a (cs ++ [x]))).nonempty =
      (DataLookup.mk (expand size p a cs)).nonempty := by
  induction cs generalizing p a with
  | nil =>
    have hone : expand size p a [x] = [(p, ⟨a, size⟩)] := by
      rw [expand, hx, expand_nil, if_neg (UInt32.lt_irrefl _)]
    rw [List.nil_append, hone, expand_nil]
    split_ifs with hlt
    · rfl
    · simp [DataLookup.nonempty, DataLookupRange.isEmpty, UInt32.not_lt.mp hlt]
  | cons c cs ih =>
    have hrest := ih c.appId c.start
    simp only [DataLookup.nonempty, List.cons_append, expand, List.filter_cons] at hrest ⊢
    rw [hrest]

section Increasing

variable {c : CompactDataLookup}

/-- The ids that get a range are 0 and those of the items that have one. -/
theorem keptIds_eq (hle : lastStart 0 c.index ≤ c.size) : c.keptIds = ⟨0⟩ :: c.ranged.map (·.appId) := by
  obtain ⟨size, index⟩ := c
  rcases List.eq_nil_or_concat' index with rfl | ⟨cs, x, rfl⟩
  · rw [ranged_nil]
    simp [keptIds]
  · rw [lastStart_concat] at hle
    rw [ranged_concat, keptIds]
    simp only [List.getLast?_concat, Option.mem_def, Option.some.injEq, exists_eq_left']
    by_cases hsize : x.start = size
    · rw [if_pos hsize, if_neg (hsize ▸ UInt32.lt_irrefl _), List.map_append, List.map_singleton, ← List.cons_append,
        List.dropLast_concat]
    · rw [if_neg hsize, if_pos (UInt32.lt_of_le_of_ne hle hsize)]

/-- The last of the items that have a range starts no later. -/
theorem lastStart_ranged_le (h : (c.index.map (·.start)).IsChain (· ≤ ·)) :
    lastStart 0 c.ranged ≤ lastStart 0 c.index := by
  obtain ⟨size, index⟩ := c
  rcases List.eq_nil_or_concat' index with rfl | ⟨cs, x, rfl⟩
  · rw [ranged_nil]
    exact UInt32.le_refl _
  · rw [ranged_concat]
    split_ifs
    · exact UInt32.le_refl _
    · rcases List.eq_nil_or_concat' cs with rfl | ⟨ds, y, rfl⟩
      · exact UInt32.zero_le
      · rw [lastStart_concat, lastStart_concat]
        rw [List.isChain_iff_pairwise, List.pairwise_map, List.pairwise_append] at h
        exact h.2.2 y (List.mem_append_right _ (List.mem_singleton.mpr rfl)) x (List.mem_singleton.mpr rfl)

/-- An item without a range adds no chunks. -/
theorem nonempty_expand_ranged (hle : lastStart 0 c.index ≤ c.size) :
    (DataLookup.mk (expand c.size ⟨0⟩ 0 c.ranged)).nonempty =
      (DataLookup.mk (expand c.size ⟨0⟩ 0 c.index)).nonempty := by
  obtain ⟨size, index⟩ := c
  rcases List.eq_nil_or_concat' index with rfl | ⟨cs, x, rfl⟩
  · rw [ranged_nil]
  · rw [lastStart_concat] at hle
    rw [ranged_concat]
    split_ifs with hlt
    · rfl
    · exact (nonempty_expand_concat (UInt32.le_antisymm hle (UInt32.not_lt.mp hlt)) ⟨0⟩ 0 cs).symm

/-- **A form that increases is sent on as one**, with the same ranges but for empty ones. -/
theorem exists_relay_of_increasing (hc : c.isError = false) (hlen : c.index.length + 1 < usizeLimit)
    (hle : lastStart 0 c.index ≤ c.size) (h : c.Increasing) : ∃ sent : CompactDataLookup, c.relay = .ok sent ∧
      sent.isError = false ∧ sent.index.length + 1 < usizeLimit ∧ lastStart 0 sent.index ≤ sent.size ∧
      sent.Increasing ∧ sent.size = c.size ∧ (DataLookup.mk (expand sent.size ⟨0⟩ 0 sent.index)).nonempty =
        (DataLookup.mk (expand c.size ⟨0⟩ 0 c.index)).nonempty := by
  obtain ⟨hstarts, hids⟩ := h
  have hsublist := c.ranged_sublist
  have hwithin := UInt32.le_trans (lastStart_ranged_le hstarts) hle
  rw [keptIds_eq hle] at hids
  -- no item that has a range is for `AppId(0)`
  have hkeep : c.ranged.filter (fun x => x.appId ≠ ⟨0⟩) = c.ranged := by
    rw [List.filter_eq_self]
    intro x hx
    exact decide_eq_true (AppId.zero_lt_iff.mp ((List.pairwise_cons.mp hids).1 _ (List.mem_map_of_mem hx)))
  have hrelay := (relay_eq_ok_iff hc hlen).mpr ⟨hle, rfl⟩
  rw [hkeep] at hrelay
  refine ⟨_, hrelay, isError_sent hc hsublist, ?_, hwithin, ⟨?_, ?_⟩, rfl, nonempty_expand_ranged hle⟩
  · exact lt_of_le_of_lt (Nat.succ_le_succ hsublist.length_le) hlen
  · rw [List.isChain_iff_pairwise] at hstarts ⊢
    exact hstarts.sublist (hsublist.map _)
  · rw [keptIds_eq hwithin]
    exact hids.sublist (((ranged_sublist ⟨c.size, c.ranged⟩).map _).cons_cons _)

end Increasing

/-- The ids of an increasing form's lookup are distinct. -/
theorem nodup_ids_of_increasing {c : CompactDataLookup} {l : DataLookup} (hc : c.isError = false)
    (h : tryFrom c = .ok l) (hinc : c.Increasing) : (l.index.map Prod.fst).Nodup := by
  by_cases hne : l.index = []
  · rw [hne]
    exact List.nodup_nil
  · rw [ids_tryFrom hc h hne]
    exact hinc.2.imp fun hlt => ne_of_lt hlt

/-- **A form that increases is accepted by all nodes** if its last item starts within `size`, and each node has the same
range for an application, or none where the first has an empty one or none. -/
theorem relayed_ordered {c : CompactDataLookup} (hc : c.isError = false) (hlen : c.index.length + 1 < usizeLimit)
    (hle : lastStart 0 c.index ≤ c.size) (hinc : c.Increasing) : ∃ l, tryFrom c = .ok l ∧
      ∀ n, ∃ sent r, relayed n c = .ok sent ∧ sent.Increasing ∧ tryFrom sent = .ok r ∧
        ∀ id range, range.isEmpty = false → (r.rangeOf id = some range ↔ l.rangeOf id = some range) := by
  have haccept : ∀ {d : CompactDataLookup}, d.isError = false → d.index.length + 1 < usizeLimit →
      lastStart 0 d.index ≤ d.size → tryFrom d = .ok ⟨expand d.size ⟨0⟩ 0 d.index⟩ :=
    fun hd hdlen hdle => (tryFrom_eq_ok_iff hd).mpr ⟨hdlen, rfl, len_expand_eq_iff.mpr hdle⟩
  refine ⟨_, haccept hc hlen hle, fun n => ?_⟩
  -- by induction on the nodes: what a form that increases is sent on as does so too
  have hnodes : ∃ sent r, relayed n c = .ok sent ∧ sent.isError = false ∧ sent.Increasing ∧ tryFrom sent = .ok r ∧
      r.nonempty = (DataLookup.mk (expand c.size ⟨0⟩ 0 c.index)).nonempty := by
    induction n generalizing c with
    | zero => exact ⟨c, _, rfl, hc, hinc, haccept hc hlen hle, rfl⟩
    | succ n ih =>
      obtain ⟨next, hrelay, hnext, hnextLen, hnextLe, hnextInc, -, hranges⟩ :=
        exists_relay_of_increasing hc hlen hle hinc
      obtain ⟨sent, r, hsent, hrest, hsentInc, hr, hsame⟩ := ih hnext hnextLen hnextLe hnextInc
      exact ⟨sent, r, by rw [relayed, hrelay, Except.ok_bind, hsent], hrest, hsentInc, hr, hsame.trans hranges⟩
  obtain ⟨sent, r, hsent, hsentError, hsentInc, hr, hsame⟩ := hnodes
  refine ⟨sent, r, hsent, hsentInc, hr, fun id range hrange => ?_⟩
  have hmem : ∀ l : DataLookup, (id, range) ∈ l.index ↔ (id, range) ∈ l.nonempty := by
    intro l
    rw [DataLookup.nonempty, List.mem_filter, hrange]
    exact (and_iff_left rfl).symm
  rw [DataLookup.rangeOf_eq_some (nodup_ids_of_increasing hsentError hr hsentInc),
    DataLookup.rangeOf_eq_some (nodup_ids_of_increasing hc (haccept hc hlen hle) hinc), hmem r,
    hmem ⟨expand c.size ⟨0⟩ 0 c.index⟩, hsame]

/-- The last application of this lookup has an empty range, and is lost at the first node. -/
theorem relayed_ordered_one : ∃ sent r, relayed 7 ⟨5, [⟨⟨1⟩, 3⟩, ⟨⟨2⟩, 5⟩]⟩ = .ok sent ∧ tryFrom sent = .ok r ∧
    r.rangeOf ⟨1⟩ = some ⟨3, 5⟩ := by
  obtain ⟨l, hl, hnodes⟩ := @relayed_ordered ⟨5, [⟨⟨1⟩, 3⟩, ⟨⟨2⟩, 5⟩]⟩ (by decide) (by decide) (by decide) (by decide)
  have hfirst : tryFrom ⟨5, [⟨⟨1⟩, 3⟩, ⟨⟨2⟩, 5⟩]⟩ = .ok ⟨[(⟨0⟩, ⟨0, 3⟩), (⟨1⟩, ⟨3, 5⟩)]⟩ := by decide
  obtain rfl := Except.ok.inj (hl.symm.trans hfirst)
  obtain ⟨sent, r, hsent, -, hr, hranges⟩ := hnodes 7
  exact ⟨sent, r, hsent, hr, (hranges _ _ (by decide)).mpr (by decide)⟩

end AvailCore
