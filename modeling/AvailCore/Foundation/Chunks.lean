import Mathlib.Data.List.Basic
import Mathlib.Tactic.Ring

/-!
# Cutting a list into chunks

`chunks k` cuts a list into chunks of `k` items, the last one possibly shorter;
`chunksExact k` leaves a shorter last one out. Filling every chunk up with a padding
item and joining them again gives the list followed by padding (`flatten_resizeTo_chunks`),
and a list of chunks of one length is recovered from its concatenation
(`chunksExact_flatten`), which can also be cut at chunk boundaries
(`drop_flatten_uniform`, `take_flatten_uniform`). Items in rows of one length are numbered
row by row: the quotient is the row (`mul_add_div_mod`).
-/

namespace AvailCore.Chunks

variable {α : Type*}

/-- The chunks of `k` items of a list, the last possibly shorter. -/
def chunks (k : ℕ) (xs : List α) : List (List α) :=
  (List.range ((xs.length + k - 1) / k)).map fun i => (xs.drop (i * k)).take k

/-- The chunks of exactly `k` items of a list: what remains at its end is left out. -/
def chunksExact (k : ℕ) (xs : List α) : List (List α) :=
  (List.range (xs.length / k)).map fun i => (xs.drop (i * k)).take k

/-- What `chunksExact` leaves out. -/
def remainder (k : ℕ) (xs : List α) : List α := xs.drop (xs.length / k * k)

/-- A list cut, or filled up with `z`, to `n` items. -/
def resizeTo (z : α) (n : ℕ) (xs : List α) : List α := xs.take n ++ List.replicate (n - xs.length) z

/-- Item `c` of row `r`, in rows of `w` items. -/
theorem mul_add_div_mod {w r c : ℕ} (hc : c < w) : (r * w + c) / w = r ∧ (r * w + c) % w = c :=
  (Nat.div_mod_unique (Nat.zero_lt_of_lt hc)).mpr ⟨by ring, hc⟩

theorem mul_add_lt {w h r c : ℕ} (hr : r < h) (hc : c < w) : r * w + c < h * w := by
  have hle : (r + 1) * w ≤ h * w := Nat.mul_le_mul_right w hr
  rw [Nat.succ_mul] at hle
  exact (Nat.add_lt_add_left hc _).trans_le hle

/-- Whole rows are as many when rows that are not whole count. -/
theorem mul_add_sub_one_div {k : ℕ} (hk : 0 < k) (n : ℕ) : (n * k + k - 1) / k = n := by
  rw [Nat.add_sub_assoc hk]
  exact (mul_add_div_mod (Nat.sub_one_lt hk.ne')).1

/-- A list in two parts of given lengths. -/
theorem exists_append_of_length {xs : List α} {m n : ℕ} (h : xs.length = m + n) :
    ∃ ys zs, xs = ys ++ zs ∧ ys.length = m ∧ zs.length = n := by
  refine ⟨xs.take m, xs.drop m, (List.take_append_drop m xs).symm, ?_, ?_⟩
  · exact List.length_take_of_le (by omega)
  · rw [List.length_drop]
    omega

@[simp] theorem chunks_nil {k : ℕ} (hk : 0 < k) : chunks k ([] : List α) = [] := by
  simp [chunks, hk]

/-- The first chunk, and the chunks of the rest. -/
theorem chunks_eq_cons {k : ℕ} (hk : 0 < k) {xs : List α} (h : xs ≠ []) :
    chunks k xs = xs.take k :: chunks k (xs.drop k) := by
  have hpos : 0 < xs.length := List.length_pos_iff.mpr h
  have hn : (xs.length + k - 1) / k = ((xs.drop k).length + k - 1) / k + 1 := by
    rw [List.length_drop, ← Nat.add_div_right _ hk]
    by_cases hle : k ≤ xs.length
    · congr 1; omega
    · rw [show xs.length - k + k - 1 + k = (k - 1) + k by omega, Nat.add_div_right _ hk,
        Nat.div_eq_of_lt (show k - 1 < k by omega)]
      exact Nat.div_eq_of_lt_le (by omega) (by omega)
  unfold chunks
  rw [hn, List.range_succ_eq_map, List.map_cons, List.map_map]
  congr 1
  · simp
  · refine List.map_congr_left fun i _ => ?_
    simp only [Function.comp, List.drop_drop]
    rw [show i.succ * k = k + i * k by rw [Nat.succ_mul]; omega]

theorem resizeTo_of_le {z : α} {n : ℕ} {xs : List α} (h : xs.length ≤ n) :
    resizeTo z n xs = xs ++ List.replicate (n - xs.length) z := by
  rw [resizeTo, List.take_of_length_le h]

@[simp] theorem length_resizeTo (z : α) (n : ℕ) (xs : List α) : (resizeTo z n xs).length = n := by
  simp [resizeTo]
  omega

theorem resizeTo_of_length {z : α} {n : ℕ} {xs : List α} (h : xs.length = n) : resizeTo z n xs = xs := by
  rw [resizeTo_of_le h.le, h, Nat.sub_self, List.replicate_zero, List.append_nil]

/-- Lists of one length that fit are not confused. -/
theorem resizeTo_inj {z : α} {n : ℕ} {xs ys : List α} (hx : xs.length ≤ n) (hlen : xs.length = ys.length)
    (h : resizeTo z n xs = resizeTo z n ys) : xs = ys := by
  rw [resizeTo_of_le hx, resizeTo_of_le (hlen ▸ hx)] at h
  exact (List.append_inj h hlen).1

/-- What a list is cut or filled up to: the list with padding, or what it starts with. -/
theorem resizeTo_eq_iff {z : α} {n : ℕ} {xs ys : List α} : resizeTo z n xs = ys ↔
    ys.length = n ∧ ((∃ m, ys = xs ++ List.replicate m z) ∨ ∃ extra, xs = ys ++ extra) := by
  constructor
  · rintro rfl
    refine ⟨length_resizeTo z n xs, ?_⟩
    rcases le_total xs.length n with hle | hle
    · exact Or.inl ⟨_, resizeTo_of_le hle⟩
    · refine Or.inr ⟨xs.drop n, ?_⟩
      rw [resizeTo, Nat.sub_eq_zero_of_le hle, List.replicate_zero, List.append_nil, List.take_append_drop]
  · rintro ⟨rfl, ⟨m, rfl⟩ | ⟨extra, rfl⟩⟩
    · rw [resizeTo_of_le (by simp), List.length_append, List.length_replicate, Nat.add_sub_cancel_left]
    · simp [resizeTo]

theorem getD_resizeTo {z : α} {n j : ℕ} (h : j < n) (xs : List α) :
    (resizeTo z n xs).getD j z = xs.getD j z := by
  simp only [resizeTo, List.getD_eq_getElem?_getD, List.getElem?_append, List.length_take, List.getElem?_take,
    List.getElem?_replicate]
  by_cases hj : j < xs.length
  · rw [if_pos (by omega), if_pos h]
  · rw [if_neg (by omega), List.getElem?_eq_none (not_lt.mp hj)]
    split_ifs <;> rfl

/-- Filling up further and cutting back. -/
theorem take_resizeTo {z : α} {j k : ℕ} {c : List α} (hc : c.length ≤ j) (hj : j ≤ k) :
    (resizeTo z k c).take j = resizeTo z j c := by
  rw [resizeTo_of_le (hc.trans hj), resizeTo_of_le hc, List.take_append, List.take_of_length_le hc,
    List.take_replicate]
  congr 2
  omega

/-- Filling up twice. -/
theorem resizeTo_resizeTo {z : α} {j k : ℕ} {c : List α} (hc : c.length ≤ j) (hj : j ≤ k) :
    resizeTo z k (resizeTo z j c) = resizeTo z k c := by
  have hfill : (resizeTo z j c).length ≤ k := (length_resizeTo z j c).trans_le hj
  rw [resizeTo_of_le hfill, length_resizeTo, resizeTo_of_le hc, resizeTo_of_le (hc.trans hj), List.append_assoc,
    List.replicate_append_replicate]
  congr 2
  omega

/-- A list of whole chunks has no shorter one. -/
theorem chunks_eq_chunksExact {k : ℕ} (hk : 0 < k) {xs : List α} (h : k ∣ xs.length) :
    chunks k xs = chunksExact k xs := by
  obtain ⟨n, hn⟩ := h
  rw [chunks, chunksExact, hn, Nat.mul_comm, mul_add_sub_one_div hk, Nat.mul_div_cancel n hk]

/-- Chunks are not empty and have at most `k` items. -/
theorem length_of_mem_chunks {k : ℕ} {xs c : List α} (hc : c ∈ chunks k xs) :
    0 < c.length ∧ c.length ≤ k := by
  simp only [chunks, List.mem_map, List.mem_range] at hc
  obtain ⟨i, hi, rfl⟩ := hc
  have hk : 0 < k := by
    rcases Nat.eq_zero_or_pos k with rfl | hk
    · simp at hi
    · exact hk
  have : (i + 1) * k ≤ xs.length + k - 1 := (Nat.le_div_iff_mul_le hk).mp hi
  rw [Nat.succ_mul] at this
  constructor
  · rw [List.length_take, List.length_drop]; omega
  · exact List.length_take_le ..

/-- Joining the chunks gives the list back. -/
theorem flatten_chunks {k : ℕ} (hk : 0 < k) (xs : List α) : (chunks k xs).flatten = xs := by
  induction h : xs.length using Nat.strong_induction_on generalizing xs with
  | _ n ih =>
    by_cases hx : xs = []
    · simp [hx, hk]
    · have hpos : 0 < xs.length := List.length_pos_iff.mpr hx
      rw [chunks_eq_cons hk hx, List.flatten_cons, ih _ (by rw [List.length_drop]; omega) _ rfl,
        List.take_append_drop]

/-- Joining the filled-up chunks gives the list followed by padding. -/
theorem flatten_resizeTo_chunks (z : α) {k : ℕ} (hk : 0 < k) (xs : List α) :
    ∃ m < k, ((chunks k xs).map (resizeTo z k)).flatten = xs ++ List.replicate m z := by
  induction h : xs.length using Nat.strong_induction_on generalizing xs with
  | _ n ih =>
    by_cases hx : xs = []
    · exact ⟨0, hk, by simp [hx, hk]⟩
    · have hpos : 0 < xs.length := List.length_pos_iff.mpr hx
      rw [chunks_eq_cons hk hx, List.map_cons, List.flatten_cons]
      by_cases hle : k ≤ xs.length
      · -- a whole chunk needs no padding
        obtain ⟨m, hm, hrest⟩ := ih _ (by rw [List.length_drop]; omega) (xs.drop k) rfl
        have hwhole : resizeTo z k (xs.take k) = xs.take k := resizeTo_of_length (List.length_take_of_le hle)
        exact ⟨m, hm, by rw [hrest, hwhole, ← List.append_assoc, List.take_append_drop]⟩
      · -- the last chunk is the rest of the list
        refine ⟨k - xs.length, by omega, ?_⟩
        rw [List.drop_eq_nil_of_le (by omega), chunks_nil hk, List.take_of_length_le (by omega), List.map_nil,
          List.flatten_nil, List.append_nil, resizeTo_of_le (by omega)]

theorem chunksExact_append {k : ℕ} (hk : 0 < k) {c : List α} (hc : c.length = k) (xs : List α) :
    chunksExact k (c ++ xs) = c :: chunksExact k xs := by
  unfold chunksExact
  rw [List.length_append, hc, Nat.add_comm, Nat.add_div_right _ hk, List.range_succ_eq_map, List.map_cons,
    List.map_map]
  congr 1
  · rw [Nat.zero_mul, List.drop_zero, List.take_left' hc]
  · refine List.map_congr_left fun i _ => ?_
    simp only [Function.comp]
    rw [show i.succ * k = c.length + i * k by rw [Nat.succ_mul, hc]; omega, ← List.drop_drop,
      List.drop_left]

theorem length_chunksExact (k : ℕ) (xs : List α) : (chunksExact k xs).length = xs.length / k := by
  simp [chunksExact]

theorem length_of_mem_chunksExact {k : ℕ} {xs c : List α} (hc : c ∈ chunksExact k xs) : c.length = k := by
  obtain ⟨i, hi, rfl⟩ := List.mem_map.mp hc
  have hlt := List.mem_range.mp hi
  have hle : (i + 1) * k ≤ xs.length := (Nat.mul_le_mul_right k hlt).trans (Nat.div_mul_le_self _ _)
  rw [Nat.succ_mul] at hle
  rw [List.length_take, List.length_drop]
  omega

/-- The whole chunks, and what they leave out. -/
theorem flatten_chunksExact_append_remainder {k : ℕ} (hk : 0 < k) (xs : List α) :
    (chunksExact k xs).flatten ++ remainder k xs = xs := by
  induction h : xs.length using Nat.strong_induction_on generalizing xs with
  | _ n ih =>
    by_cases hle : k ≤ xs.length
    · have hc : (xs.take k).length = k := List.length_take_of_le hle
      have hrest := ih _ (by rw [List.length_drop]; omega) (xs.drop k) rfl
      have hrem : remainder k xs = remainder k (xs.drop k) := by
        rw [remainder, remainder, List.length_drop, List.drop_drop, Nat.div_eq_sub_div hk hle, Nat.succ_mul,
          Nat.add_comm k]
      have hcut : chunksExact k xs = xs.take k :: chunksExact k (xs.drop k) := by
        rw [← chunksExact_append hk hc, List.take_append_drop]
      rw [hcut, hrem, List.flatten_cons, List.append_assoc, hrest, List.take_append_drop]
    · rw [chunksExact, remainder, Nat.div_eq_of_lt (by omega)]
      simp

/-- A short list has no whole chunk. -/
theorem chunksExact_short {k : ℕ} {xs : List α} (h : xs.length < k) : chunksExact k xs = [] := by
  simp [chunksExact, Nat.div_eq_of_lt h]

/-- Chunks of one length are recovered from their concatenation, whatever is left after them. -/
theorem chunksExact_flatten_append {k : ℕ} (hk : 0 < k) {cs : List (List α)} (h : ∀ c ∈ cs, c.length = k)
    {xs : List α} (hx : xs.length < k) : chunksExact k (cs.flatten ++ xs) = cs := by
  induction cs with
  | nil => rw [List.flatten_nil, List.nil_append, chunksExact_short hx]
  | cons c cs ih =>
    rw [List.flatten_cons, List.append_assoc, chunksExact_append hk (h c (List.mem_cons_self ..)),
      ih fun d hd => h d (List.mem_cons_of_mem _ hd)]

theorem chunksExact_flatten {k : ℕ} (hk : 0 < k) {cs : List (List α)} (h : ∀ c ∈ cs, c.length = k) :
    chunksExact k cs.flatten = cs := by
  have h' := chunksExact_flatten_append hk h (show ([] : List α).length < k from hk)
  rwa [List.append_nil] at h'

/-- What is left over after a chunk is shorter than one. -/
theorem length_remainder {k : ℕ} (xs : List α) : (remainder k xs).length = xs.length % k := by
  rw [remainder, List.length_drop, Nat.mod_eq_sub, Nat.mul_comm]

theorem remainder_eq_nil_iff {k : ℕ} {xs : List α} : remainder k xs = [] ↔ k ∣ xs.length := by
  rw [← List.length_eq_zero_iff, length_remainder, Nat.dvd_iff_mod_eq_zero]

/-- Items that do not fill up another chunk are left out. -/
theorem chunksExact_append_short {k : ℕ} {xs ys : List α} (h : xs.length % k + ys.length < k) :
    chunksExact k (xs ++ ys) = chunksExact k xs := by
  have hjoin := flatten_chunksExact_append_remainder (show 0 < k by omega) xs
  have hshort : (remainder k xs ++ ys).length < k := by
    rwa [List.length_append, length_remainder]
  have hall := chunksExact_flatten_append (show 0 < k by omega)
    (fun c hc => @length_of_mem_chunksExact _ k xs c hc) hshort
  rwa [← List.append_assoc, hjoin] at hall

/-! ### Chunks of one length -/

theorem length_flatten_uniform {k : ℕ} {cs : List (List α)} (h : ∀ c ∈ cs, c.length = k) :
    cs.flatten.length = cs.length * k := by
  induction cs with
  | nil => simp
  | cons c cs ih =>
    rw [List.flatten_cons, List.length_append, h c (List.mem_cons_self ..),
      ih fun d hd => h d (List.mem_cons_of_mem _ hd), List.length_cons]
    ring

/-- **Padding**, of as many items as leave whole chunks, fills up the last chunk, or is one more. -/
theorem chunks_append_padding (z : α) {k m : ℕ} (hk : 0 < k) {xs : List α} (hpos : 0 < m) (hle : m ≤ k)
    (h : k ∣ xs.length + m) :
    chunks k (xs ++ List.replicate m z) =
      (chunks k xs).map (resizeTo z k) ++ if k ∣ xs.length then [List.replicate k z] else [] := by
  have hlength : ∀ c ∈ (chunks k xs).map (resizeTo z k) ++ if k ∣ xs.length then [List.replicate k z] else [],
      c.length = k := by
    intro c hc
    rcases List.mem_append.mp hc with hc | hc
    · obtain ⟨c, -, rfl⟩ := List.mem_map.mp hc
      exact length_resizeTo ..
    · split_ifs at hc
      · rw [List.mem_singleton.mp hc, List.length_replicate]
      · cases hc
  obtain ⟨m', hm', hjoin⟩ := flatten_resizeTo_chunks z hk xs
  have hdvd : k ∣ xs.length + m' := by
    have hcount := length_flatten_uniform (fun c hc => hlength c (List.mem_append_left _ hc))
    rw [hjoin, List.length_append, List.length_replicate] at hcount
    exact hcount ▸ dvd_mul_left _ _
  have hflatten : ((chunks k xs).map (resizeTo z k) ++ if k ∣ xs.length then [List.replicate k z] else []).flatten =
      xs ++ List.replicate m z := by
    rw [List.flatten_append, hjoin, List.append_assoc]
    congr 1
    split_ifs with hwhole
    · -- nothing is filled up, and the padding is a chunk
      have hzero : m' = 0 := Nat.eq_zero_of_dvd_of_lt ((Nat.dvd_add_right hwhole).mp hdvd) hm'
      have hone : k ≤ m := Nat.le_of_dvd hpos ((Nat.dvd_add_right hwhole).mp h)
      rw [hzero, le_antisymm hle hone, List.flatten_singleton]
      rfl
    · -- the padding fills the last chunk up
      rw [List.flatten_nil, List.append_nil]
      congr 1
      have hlt : m < k := lt_of_le_of_ne hle fun heq => hwhole ((Nat.dvd_add_left (heq ▸ dvd_rfl)).mp (heq ▸ h))
      have hdown : k ∣ m - m' := Nat.add_sub_add_left xs.length m m' ▸ Nat.dvd_sub h hdvd
      have hup : k ∣ m' - m := Nat.add_sub_add_left xs.length m' m ▸ Nat.dvd_sub hdvd h
      have hdown' := Nat.eq_zero_of_dvd_of_lt hdown (by omega)
      have hup' := Nat.eq_zero_of_dvd_of_lt hup (by omega)
      omega
  rw [chunks_eq_chunksExact hk (by simpa using h), ← hflatten, chunksExact_flatten hk hlength]

theorem drop_flatten_uniform {k : ℕ} {cs : List (List α)} (h : ∀ c ∈ cs, c.length = k) (a : ℕ) :
    cs.flatten.drop (a * k) = (cs.drop a).flatten := by
  induction cs generalizing a with
  | nil => simp
  | cons c cs ih =>
    cases a with
    | zero => simp
    | succ a =>
      rw [List.flatten_cons, List.drop_succ_cons, ← ih (fun d hd => h d (List.mem_cons_of_mem _ hd)) a,
        List.drop_append, List.drop_eq_nil_of_le, List.nil_append, h c (List.mem_cons_self ..)]
      · congr 1; rw [Nat.succ_mul]; omega
      · rw [h c (List.mem_cons_self ..), Nat.succ_mul]; omega

theorem take_flatten_uniform {k : ℕ} {cs : List (List α)} (h : ∀ c ∈ cs, c.length = k) (a : ℕ) :
    cs.flatten.take (a * k) = (cs.take a).flatten := by
  induction cs generalizing a with
  | nil => simp
  | cons c cs ih =>
    cases a with
    | zero => simp
    | succ a =>
      have hc := h c (List.mem_cons_self ..)
      rw [List.flatten_cons, List.take_succ_cons, List.flatten_cons,
        ← ih (fun d hd => h d (List.mem_cons_of_mem _ hd)) a, List.take_append, List.take_of_length_le, hc]
      · congr 2; rw [Nat.succ_mul]; omega
      · rw [hc, Nat.succ_mul]; omega

/-- A slice at chunk boundaries is the concatenation of the chunks in it. -/
theorem slice_flatten_uniform {k : ℕ} {cs : List (List α)} (h : ∀ c ∈ cs, c.length = k) (a b : ℕ) :
    (cs.flatten.drop (a * k)).take (b * k - a * k) = ((cs.drop a).take (b - a)).flatten := by
  rw [drop_flatten_uniform h, ← Nat.sub_mul,
    take_flatten_uniform fun c hc => h c (List.mem_of_mem_drop hc)]

/-- A slice of one chunk is that chunk. -/
theorem chunk_flatten_uniform {k : ℕ} {cs : List (List α)} (h : ∀ c ∈ cs, c.length = k) {i : ℕ} (hi : i < cs.length) :
    (cs.flatten.drop (i * k)).take k = cs[i] := by
  have hslice := slice_flatten_uniform h i (i + 1)
  rwa [Nat.succ_mul, Nat.add_sub_cancel_left, Nat.add_sub_cancel_left, List.drop_eq_getElem_cons hi,
    List.take_succ_cons, List.take_zero, List.flatten_singleton] at hslice

end AvailCore.Chunks
