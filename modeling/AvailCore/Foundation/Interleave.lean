import Mathlib.Data.List.Basic

/-!
# Interleavings

Several threads, each a list of atomic steps, and the orders their steps can be taken in:
each thread's own order is kept, and nothing else. A run takes the steps of an
interleaving one after another on a shared state.

## What is proved

The steps taken are those of the threads (`mem_iff`), and the threads can be run one after
another (`interleaving_flatten`). `foldl_view`: a part of the state that one thread alone
writes, is as if that thread ran alone, whatever the order.
-/

namespace AvailCore

/-- `steps` are those of the threads, each in its own order. -/
inductive Interleaving {E : Type} : List (List E) → List E → Prop where
  /-- All threads have ended. -/
  | done {threads : List (List E)} : (∀ thread ∈ threads, thread = []) → Interleaving threads []
  /-- A thread takes its next step. -/
  | turn {threads : List (List E)} {i : ℕ} {step : E} {rest steps : List E} : threads[i]? = some (step :: rest) →
      Interleaving (threads.set i rest) steps → Interleaving threads (step :: steps)

namespace Interleaving

variable {E : Type} {threads : List (List E)} {steps : List E}

/-- What is left of a thread after another's turn, or its own. -/
theorem mem_set_iff {i : ℕ} {step e : E} {rest : List E} (hi : threads[i]? = some (step :: rest)) :
    (∃ thread ∈ threads, e ∈ thread) ↔ e = step ∨ ∃ thread ∈ threads.set i rest, e ∈ thread := by
  simp only [List.mem_iff_getElem?, List.getElem?_set]
  constructor
  · rintro ⟨thread, ⟨j, hj⟩, k, hk⟩
    by_cases hij : i = j
    · subst hij
      obtain rfl : step :: rest = thread := Option.some.inj (hi.symm.trans hj)
      cases k with
      | zero => exact Or.inl (Option.some.inj hk).symm
      | succ k => exact Or.inr ⟨rest, ⟨i, by simp [(List.getElem?_eq_some_iff.mp hi).1]⟩, k, hk⟩
    · exact Or.inr ⟨thread, ⟨j, by rw [if_neg hij, hj]⟩, k, hk⟩
  · rintro (rfl | ⟨thread, ⟨j, hj⟩, k, hk⟩)
    · exact ⟨_, ⟨i, hi⟩, 0, rfl⟩
    · split_ifs at hj with hij hlt
      · obtain rfl := Option.some.inj hj
        exact ⟨_, ⟨i, hi⟩, k + 1, hk⟩
      · exact ⟨thread, ⟨j, hj⟩, k, hk⟩

/-- The steps taken are those of the threads. -/
theorem mem_iff (h : Interleaving threads steps) {e : E} : e ∈ steps ↔ ∃ thread ∈ threads, e ∈ thread := by
  induction h with
  | done hdone =>
    refine iff_of_false List.not_mem_nil ?_
    rintro ⟨thread, hthread, he⟩
    rw [hdone thread hthread] at he
    exact List.not_mem_nil he
  | turn hi _ ih => rw [List.mem_cons, ih, mem_set_iff hi]

/-- A thread with no steps makes no difference. -/
theorem nil_cons (h : Interleaving threads steps) : Interleaving ([] :: threads) steps := by
  induction h with
  | done hdone => exact done (List.forall_mem_cons.mpr ⟨rfl, hdone⟩)
  | @turn threads i _ _ _ hi _ ih => exact turn (i := i + 1) hi ih

/-- A thread can take all its steps first. -/
theorem cons (thread : List E) (h : Interleaving threads steps) : Interleaving (thread :: threads) (thread ++ steps) := by
  induction thread with
  | nil => exact h.nil_cons
  | cons step rest ih => exact turn (i := 0) rfl ih

/-- **What one thread alone writes, is as if it ran alone**: in any order, the steps of the others
do not change it, and those of the thread change it by what it is. -/
theorem foldl_view {σ ν : Type} {apply : σ → E → σ} {view : σ → ν} (h : Interleaving threads steps) {i : ℕ}
    {thread : List E} (hi : threads[i]? = some thread)
    (hothers : ∀ j other, threads[j]? = some other → j ≠ i → ∀ e ∈ other, ∀ s, view (apply s e) = view s)
    (hown : ∀ e ∈ thread, ∀ s s', view s = view s' → view (apply s e) = view (apply s' e)) {s s' : σ}
    (hs : view s = view s') : view (steps.foldl apply s) = view (thread.foldl apply s') := by
  induction h generalizing thread s s' with
  | done hdone =>
    rw [hdone thread (List.mem_of_getElem? hi)]
    exact hs
  | @turn threads j step rest steps hj _ ih =>
    have hlt : j < threads.length := (List.getElem?_eq_some_iff.mp hj).1
    -- the others, after the step, have no steps they did not have
    have hothers' : ∀ k other, (threads.set j rest)[k]? = some other → k ≠ i →
        ∀ e ∈ other, ∀ s, view (apply s e) = view s := by
      intro k other hk hne e he
      rw [List.getElem?_set] at hk
      split_ifs at hk with hjk
      · obtain rfl := Option.some.inj hk
        exact hothers k _ (hjk ▸ hj) hne e (List.mem_cons_of_mem _ he)
      · exact hothers k other hk hne e he
    rw [List.foldl_cons]
    by_cases hij : j = i
    · subst hij
      obtain rfl : step :: rest = thread := Option.some.inj (hj.symm.trans hi)
      rw [List.foldl_cons]
      exact ih (by simp [hlt]) hothers' (fun e he => hown e (List.mem_cons_of_mem _ he))
        (hown step (List.mem_cons_self ..) _ _ hs)
    · refine ih (by rw [List.getElem?_set, if_neg hij, hi]) hothers' hown ?_
      rw [hothers j _ hj hij step (List.mem_cons_self ..), hs]

end Interleaving

/-- The threads can be run one after another. -/
theorem interleaving_flatten {E : Type} (threads : List (List E)) : Interleaving threads threads.flatten := by
  induction threads with
  | nil => exact Interleaving.done fun _ h => absurd h List.not_mem_nil
  | cons thread threads ih => exact ih.cons thread

end AvailCore
