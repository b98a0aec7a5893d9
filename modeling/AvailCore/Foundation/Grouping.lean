import Mathlib.Data.List.Dedup
import Mathlib.Data.List.Induction
import Mathlib.Data.List.Sort
import Mathlib.Order.Defs.LinearOrder
import Std.Data.TreeMap.Lemmas

/-!
# Grouping by key

A list of keyed values, grouped: one group for each key that occurs, the keys
increasing, the values of a key in the order of the list. `IsGrouping` says this of a
result, and determines it (`IsGrouping.unique`); `grouped` computes it from the
definition.

Two ways of grouping are proved to do so: collecting the values in a sorted map, entry
by entry (`treeGroup_isGrouping`), and sorting the list by key with a stable sort and
then collecting the runs of equal keys (`runs_mergeSort_isGrouping`).
-/

namespace AvailCore.Grouping

variable {K V : Type*} [LinearOrder K]

/-- The values under the key `k`, in order. -/
def valuesOf (k : K) (xs : List (K × V)) : List V := (xs.filter fun x => x.1 = k).map Prod.snd

/-- `gs` is the grouping of `xs`: the keys of `gs` increase, and its groups are the
nonempty lists of values of a key. -/
structure IsGrouping (xs : List (K × V)) (gs : List (K × List V)) : Prop where
  sorted : gs.Pairwise fun a b => a.1 < b.1
  mem_iff : ∀ k vs, (k, vs) ∈ gs ↔ vs = valuesOf k xs ∧ vs ≠ []

/-- The grouping, computed from its definition. -/
def grouped (xs : List (K × V)) : List (K × List V) :=
  ((xs.map Prod.fst).dedup.mergeSort (· ≤ ·)).map fun k => (k, valuesOf k xs)

theorem valuesOf_ne_nil {k : K} {xs : List (K × V)} : valuesOf k xs ≠ [] ↔ k ∈ xs.map Prod.fst := by
  simp [valuesOf, List.filter_eq_nil_iff]

theorem valuesOf_append (k : K) (xs ys : List (K × V)) :
    valuesOf k (xs ++ ys) = valuesOf k xs ++ valuesOf k ys := by
  simp [valuesOf]

theorem valuesOf_singleton (k : K) (x : K × V) : valuesOf k [x] = if x.1 = k then [x.2] else [] := by
  by_cases h : x.1 = k <;> simp [valuesOf, h]

theorem IsGrouping.nodup {xs : List (K × V)} {gs : List (K × List V)} (h : IsGrouping xs gs) : gs.Nodup :=
  h.sorted.imp fun hab heq => by rw [heq] at hab; exact lt_irrefl _ hab

/-- A list has one grouping. -/
theorem IsGrouping.unique {xs : List (K × V)} {gs gs' : List (K × List V)} (h : IsGrouping xs gs)
    (h' : IsGrouping xs gs') : gs = gs' := by
  have hperm : gs.Perm gs' := by
    apply (List.perm_ext_iff_of_nodup h.nodup h'.nodup).mpr
    rintro ⟨k, vs⟩
    rw [h.mem_iff, h'.mem_iff]
  refine hperm.eq_of_pairwise ?_ h.sorted h'.sorted
  intro a b _ _ hab hba
  exact absurd hab hba.asymm

theorem grouped_isGrouping (xs : List (K × V)) : IsGrouping xs (grouped xs) := by
  have hnodup : ((xs.map Prod.fst).dedup.mergeSort (· ≤ ·)).Nodup :=
    ((List.mergeSort_perm _ _).nodup_iff).mpr (List.nodup_dedup _)
  have hle : ((xs.map Prod.fst).dedup.mergeSort (· ≤ ·)).Pairwise (· ≤ ·) := by
    simpa using @List.pairwise_mergeSort K (fun a b => decide (a ≤ b))
      (fun a b c hab hbc => by simpa using le_trans (by simpa using hab) (by simpa using hbc))
      (fun a b => by simpa using le_total a b) (xs.map Prod.fst).dedup
  constructor
  · rw [grouped, List.pairwise_map]
    exact (hle.and hnodup).imp fun ⟨h1, h2⟩ => lt_of_le_of_ne h1 h2
  · intro k vs
    simp only [grouped, List.mem_map, List.mem_mergeSort, List.mem_dedup, Prod.mk.injEq]
    constructor
    · rintro ⟨k', hk', rfl, rfl⟩
      exact ⟨rfl, valuesOf_ne_nil.mpr (by simpa using hk')⟩
    · rintro ⟨rfl, hne⟩
      exact ⟨k, by simpa using valuesOf_ne_nil.mp hne, rfl, rfl⟩

/-! ### By a sorted map -/

/-- Push each value onto the entry of its key. -/
def treeGroup (xs : List (K × V)) : Std.TreeMap K (List V) :=
  xs.foldl (fun acc x => acc.alter x.1 fun vs => some (vs.getD [] ++ [x.2])) ∅

theorem getElem?_treeGroup (xs : List (K × V)) (k : K) :
    (treeGroup xs)[k]? = if valuesOf k xs = [] then none else some (valuesOf k xs) := by
  induction xs using List.reverseRecOn with
  | nil => simp [treeGroup, valuesOf]
  | append_singleton xs x ih =>
    have hstep : treeGroup (xs ++ [x]) =
        (treeGroup xs).alter x.1 fun vs => some (vs.getD [] ++ [x.2]) := by
      simp [treeGroup]
    rw [hstep, Std.TreeMap.getElem?_alter, valuesOf_append, valuesOf_singleton]
    by_cases hx : x.1 = k
    · subst hx
      have hne : valuesOf x.1 xs ++ [x.2] ≠ [] := by simp
      rw [if_pos (compare_eq_iff_eq.mpr rfl), ih, if_pos (rfl : x.1 = x.1), if_neg hne]
      split_ifs with h
      · rw [h]; rfl
      · rfl
    · rw [if_neg (fun h => hx (compare_eq_iff_eq.mp h)), if_neg hx, List.append_nil, ih]

/-- The entries of the map, in order, are the grouping. -/
theorem treeGroup_isGrouping (xs : List (K × V)) : IsGrouping xs (treeGroup xs).toList := by
  constructor
  · exact (@Std.TreeMap.ordered_keys_toList _ _ _ (treeGroup xs) _).imp fun h => compare_lt_iff_lt.mp h
  · intro k vs
    rw [Std.TreeMap.mem_toList_iff_getElem?_eq_some, getElem?_treeGroup]
    split_ifs with h
    · simp only [false_iff, not_and, not_not]
      intro hvs
      rw [hvs, h]
    · constructor
      · rintro ⟨⟩
        exact ⟨rfl, h⟩
      · rintro ⟨rfl, -⟩
        rfl

/-! ### By sorting, then runs of equal keys -/

/-- One step of collecting runs: add the value to the last run if it has this key, or start a run. -/
def pushRun (acc : List (K × List V)) (x : K × V) : List (K × List V) :=
  match acc.getLast? with
  | some (k, vs) => if x.1 = k then acc.dropLast ++ [(k, vs ++ [x.2])] else acc ++ [(x.1, [x.2])]
  | none => acc ++ [(x.1, [x.2])]

/-- The runs of equal keys. -/
def runs (xs : List (K × V)) : List (K × List V) := xs.foldl pushRun []

@[simp] theorem pushRun_concat (acc : List (K × List V)) (k : K) (vs : List V) (x : K × V) :
    pushRun (acc ++ [(k, vs)]) x =
      if x.1 = k then acc ++ [(k, vs ++ [x.2])] else acc ++ [(k, vs)] ++ [(x.1, [x.2])] := by
  simp [pushRun]

theorem valuesOf_append_self (xs : List (K × V)) (x : K × V) :
    valuesOf x.1 (xs ++ [x]) = valuesOf x.1 xs ++ [x.2] := by
  rw [valuesOf_append, valuesOf_singleton, if_pos rfl]

theorem valuesOf_append_of_ne {k : K} {x : K × V} (h : k ≠ x.1) (xs : List (K × V)) :
    valuesOf k (xs ++ [x]) = valuesOf k xs := by
  rw [valuesOf_append, valuesOf_singleton, if_neg h.symm, List.append_nil]

/-- The keys of the groups are those of the list. -/
theorem IsGrouping.key_le {xs : List (K × V)} {gs : List (K × List V)} (h : IsGrouping xs gs) {k : K}
    (hk : ∀ y ∈ xs, y.1 ≤ k) {g : K × List V} (hg : g ∈ gs) : g.1 ≤ k := by
  obtain ⟨hvs, hne⟩ := (h.mem_iff g.1 g.2).mp hg
  obtain ⟨y, hy, hyg⟩ := List.mem_map.mp (valuesOf_ne_nil.mp (hvs ▸ hne))
  exact hyg ▸ hk y hy

/-- A value with a new key, past all others, starts a run. -/
theorem IsGrouping.startRun {xs : List (K × V)} {gs : List (K × List V)} (h : IsGrouping xs gs) {x : K × V}
    (hlt : ∀ g ∈ gs, g.1 < x.1) : IsGrouping (xs ++ [x]) (gs ++ [(x.1, [x.2])]) := by
  have hempty : valuesOf x.1 xs = [] := by
    by_contra hne
    exact lt_irrefl _ (hlt _ ((h.mem_iff x.1 _).mpr ⟨rfl, hne⟩))
  constructor
  · rw [List.pairwise_append]
    refine ⟨h.sorted, List.pairwise_singleton .., ?_⟩
    intro g hg b hb
    obtain rfl := List.mem_singleton.mp hb
    exact hlt g hg
  · intro k vs
    rw [List.mem_append, h.mem_iff, List.mem_singleton, Prod.mk.injEq]
    by_cases hk : k = x.1
    · subst hk
      rw [valuesOf_append_self, hempty]
      simp +contextual
    · rw [valuesOf_append_of_ne hk]
      simp [hk]

/-- A value with the key of the last run is one more of it. -/
theorem IsGrouping.extendRun {xs : List (K × V)} {gs : List (K × List V)} {x : K × V} {vs : List V}
    (h : IsGrouping xs (gs ++ [(x.1, vs)])) : IsGrouping (xs ++ [x]) (gs ++ [(x.1, vs ++ [x.2])]) := by
  obtain ⟨hsorted, -, hlast⟩ := List.pairwise_append.mp h.sorted
  have hlt : ∀ g ∈ gs, g.1 < x.1 := fun g hg => hlast g hg (x.1, vs) (by simp)
  obtain ⟨hvs, -⟩ := (h.mem_iff x.1 vs).mp (by simp)
  constructor
  · rw [List.pairwise_append]
    refine ⟨hsorted, List.pairwise_singleton .., ?_⟩
    intro g hg b hb
    obtain rfl := List.mem_singleton.mp hb
    exact hlt g hg
  · intro k ws
    have hmem := h.mem_iff k ws
    simp only [List.mem_append, List.mem_singleton, Prod.mk.injEq] at hmem ⊢
    by_cases hk : k = x.1
    · subst hk
      rw [valuesOf_append_self, ← hvs]
      constructor
      · intro hg
        rcases hg with hg | hg
        · exact absurd (hlt _ hg) (lt_irrefl _)
        · simp [hg.2]
      · intro hws
        exact Or.inr ⟨rfl, hws.1⟩
    · rw [valuesOf_append_of_ne hk, ← hmem]
      simp [hk]

/-- The step lemma: a value whose key is not below the keys so far keeps the runs the grouping. -/
theorem IsGrouping.pushRun {xs : List (K × V)} {gs : List (K × List V)} (h : IsGrouping xs gs) {x : K × V}
    (hx : ∀ y ∈ xs, y.1 ≤ x.1) : IsGrouping (xs ++ [x]) (pushRun gs x) := by
  rcases List.eq_nil_or_concat gs with rfl | ⟨init, ⟨k, vs⟩, rfl⟩
  · exact h.startRun (by simp)
  · rw [List.concat_eq_append] at *
    rw [pushRun_concat]
    split_ifs with hxk
    · subst hxk
      exact h.extendRun
    · refine h.startRun fun g hg => ?_
      have hlast : k < x.1 := lt_of_le_of_ne (h.key_le hx (g := (k, vs)) (by simp)) (Ne.symm hxk)
      rcases List.mem_append.mp hg with hg | hg
      · exact ((List.pairwise_append.mp h.sorted).2.2 g hg (k, vs) (by simp)).trans hlast
      · obtain rfl := List.mem_singleton.mp hg
        exact hlast

/-- The runs of a list sorted by key are its grouping. -/
theorem runs_isGrouping {xs : List (K × V)} (hs : xs.Pairwise fun a b => a.1 ≤ b.1) :
    IsGrouping xs (runs xs) := by
  induction xs using List.reverseRecOn with
  | nil => exact ⟨List.Pairwise.nil, by simp [runs, valuesOf]⟩
  | append_singleton xs x ih =>
    rw [List.pairwise_append] at hs
    have hstep : runs (xs ++ [x]) = pushRun (runs xs) x := by simp [runs]
    rw [hstep]
    exact (ih hs.1).pushRun fun y hy => hs.2.2 y hy x (by simp)

/-- A stable sort by key keeps the values of a key in order. -/
theorem valuesOf_mergeSort (k : K) (xs : List (K × V)) :
    valuesOf k (xs.mergeSort fun a b => a.1 ≤ b.1) = valuesOf k xs := by
  have hsub : (xs.filter fun x => x.1 = k).Sublist (xs.mergeSort fun a b => a.1 ≤ b.1) := by
    refine List.sublist_mergeSort ?_ ?_ ?_ List.filter_sublist
    · intro a b c hab hbc
      simpa using le_trans (by simpa using hab) (by simpa using hbc)
    · intro a b
      simpa using le_total a.1 b.1
    · refine List.pairwise_of_forall_mem_list fun a ha b hb => ?_
      have ha' := (List.mem_filter.mp ha).2
      have hb' := (List.mem_filter.mp hb).2
      simp only [decide_eq_true_eq] at ha' hb' ⊢
      rw [ha', hb']
  have hfilter := hsub.filter fun x => decide (x.1 = k)
  rw [List.filter_filter] at hfilter
  simp only [Bool.and_self] at hfilter
  have hlen := ((List.mergeSort_perm xs fun a b => decide (a.1 ≤ b.1)).filter fun x => decide (x.1 = k)).length_eq
  rw [valuesOf, valuesOf, hfilter.eq_of_length hlen.symm]

theorem IsGrouping.of_valuesOf {xs ys : List (K × V)} {gs : List (K × List V)} (h : IsGrouping xs gs)
    (hv : ∀ k, valuesOf k xs = valuesOf k ys) : IsGrouping ys gs :=
  ⟨h.sorted, fun k vs => by rw [h.mem_iff, hv]⟩

/-- The runs of the list sorted by key are its grouping. -/
theorem runs_mergeSort_isGrouping (xs : List (K × V)) :
    IsGrouping xs (runs (xs.mergeSort fun a b => a.1 ≤ b.1)) := by
  refine (runs_isGrouping ?_).of_valuesOf fun k => valuesOf_mergeSort k xs
  have := @List.pairwise_mergeSort (K × V) (fun a b => decide (a.1 ≤ b.1))
    (fun a b c hab hbc => by simpa using le_trans (by simpa using hab) (by simpa using hbc))
    (fun a b => by simpa using le_total a.1 b.1) xs
  exact this.imp fun h => by simpa using h

end AvailCore.Grouping
