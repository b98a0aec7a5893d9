import Mathlib.Data.List.Forall2

/-!
# Runs of fallible code

How a call of fallible code ends: with a value, with an error it returns, with a
panic, or never. `Run ε α` is the type of such ends, with errors in `ε` and values
in `α`; it is `Except` over the three ways not to return a value, so that `do`
reads as the `?` operator does.

The lemmas here are the rules a proof about such code uses: inversion of a
successful sequence (`bind_eq_ok`), and the meaning of a traversal that stops at
the first failure (`mapM_ok_iff`), for any error type.
-/

namespace AvailCore

/-- How a call ends without returning a value. -/
inductive Stop (ε : Type) where
  /-- It returns the error `e`. -/
  | err (e : ε)
  /-- It panics. -/
  | panic
  /-- It does not come back: a loop ran through all the turns it was given. -/
  | diverge
  deriving DecidableEq, Repr

/-- A call that returns a value of `α`, or stops. -/
abbrev Run (ε α : Type) := Except (Stop ε) α

namespace Run

variable {ε ε' α β γ : Type}

/-- Return the error `e`. -/
def fail (e : ε) : Run ε α := .error (.err e)

/-- `ensure!(c, e)`: go on if `c`, else return the error `e`. -/
def ensure (c : Bool) (e : ε) : Run ε Unit := if c then .ok () else fail e

/-- `assert!(c)`: go on if `c`, else panic. -/
def assert (c : Bool) : Run ε Unit := if c then .ok () else .error .panic

/-- `ok_or(e)?` -/
def okOr (e : ε) : Option α → Run ε α
  | some a => .ok a
  | none => fail e

/-- `unwrap()`, `expect(..)`: the value, or a panic. -/
def unwrap : Option α → Run ε α
  | some a => .ok a
  | none => .error .panic

/-- `xs[i]`: the element, or a panic when `i` is out of bounds. -/
def index (xs : List α) (i : ℕ) : Run ε α := unwrap xs[i]?

/-- `a / b`: a panic when `b` is 0. -/
def div (a b : ℕ) : Run ε ℕ := if b = 0 then .error .panic else .ok (a / b)

/-- `&xs[start..end]`: the slice, or a panic when it is out of bounds. -/
def slice (xs : List α) (start end_ : ℕ) : Run ε (List α) :=
  if start ≤ end_ ∧ end_ ≤ xs.length then .ok ((xs.drop start).take (end_ - start)) else .error .panic

/-- `xs.split_at(mid)`: a panic when there are fewer than `mid` items. -/
def splitAt (xs : List α) (mid : ℕ) : Run ε (List α × List α) :=
  if mid ≤ xs.length then .ok (xs.take mid, xs.drop mid) else .error .panic

/-- `map_err(f)`: a panic stays a panic. -/
def mapErr (f : ε → ε') : Run ε α → Run ε' α
  | .ok a => .ok a
  | .error (.err e) => .error (.err (f e))
  | .error .panic => .error .panic
  | .error .diverge => .error .diverge

/-- `expect(..)` on a result: an error is a panic. -/
def expect : Run ε α → Run ε' α
  | .ok a => .ok a
  | .error (.err _) => .error .panic
  | .error .panic => .error .panic
  | .error .diverge => .error .diverge

@[simp] theorem ensure_true (e : ε) : ensure true e = .ok () := rfl

@[simp] theorem ensure_eq_ok {c : Bool} {e : ε} {u : Unit} : ensure c e = .ok u ↔ c = true := by
  cases c <;> simp [ensure, fail]

@[simp] theorem assert_eq_ok {c : Bool} {u : Unit} : (assert c : Run ε Unit) = .ok u ↔ c = true := by
  cases c <;> simp [assert]

@[simp] theorem okOr_some (e : ε) (a : α) : okOr e (some a) = .ok a := rfl

@[simp] theorem okOr_none (e : ε) : okOr e (none : Option α) = fail e := rfl

@[simp] theorem okOr_eq_ok {e : ε} {o : Option α} {a : α} : okOr e o = .ok a ↔ o = some a := by
  cases o <;> simp [okOr, fail]

@[simp] theorem unwrap_some (a : α) : (unwrap (some a) : Run ε α) = .ok a := rfl

@[simp] theorem unwrap_eq_ok {o : Option α} {a : α} : (unwrap o : Run ε α) = .ok a ↔ o = some a := by
  cases o <;> simp [unwrap]

@[simp] theorem index_eq_ok {xs : List α} {i : ℕ} {a : α} :
    (index xs i : Run ε α) = .ok a ↔ xs[i]? = some a := by simp [index]

theorem div_eq_ok {a b : ℕ} (h : b ≠ 0) : (div a b : Run ε ℕ) = .ok (a / b) := if_neg h

theorem slice_eq_ok_iff {xs ys : List α} {start end_ : ℕ} : (slice xs start end_ : Run ε (List α)) = .ok ys ↔
    start ≤ end_ ∧ end_ ≤ xs.length ∧ ys = (xs.drop start).take (end_ - start) := by
  unfold slice
  split_ifs with h
  · rw [Except.ok.injEq, eq_comm]
    exact ⟨fun heq => ⟨h.1, h.2, heq⟩, fun heq => heq.2.2⟩
  · constructor
    · intro heq
      cases heq
    · intro heq
      exact absurd ⟨heq.1, heq.2.1⟩ h

theorem slice_eq_ok {xs : List α} {start end_ : ℕ} (h : start ≤ end_) (hx : end_ ≤ xs.length) :
    (slice xs start end_ : Run ε (List α)) = .ok ((xs.drop start).take (end_ - start)) := if_pos ⟨h, hx⟩

/-- What is split is put together again. -/
theorem splitAt_eq_ok_iff {xs ys zs : List α} {mid : ℕ} : (splitAt xs mid : Run ε _) = .ok (ys, zs) ↔
    ys.length = mid ∧ xs = ys ++ zs := by
  unfold splitAt
  split_ifs with h
  · simp only [Except.ok.injEq, Prod.mk.injEq]
    constructor
    · rintro ⟨rfl, rfl⟩
      exact ⟨List.length_take_of_le h, (List.take_append_drop mid xs).symm⟩
    · rintro ⟨rfl, rfl⟩
      exact ⟨List.take_left, List.drop_left⟩
  · constructor
    · intro heq
      cases heq
    · rintro ⟨rfl, rfl⟩
      rw [List.length_append] at h
      omega

@[simp] theorem mapErr_ok (f : ε → ε') (a : α) : mapErr f (.ok a) = .ok a := rfl

@[simp] theorem mapErr_eq_ok {f : ε → ε'} {x : Run ε α} {a : α} :
    mapErr f x = .ok a ↔ x = .ok a := by
  cases x with
  | ok b => simp
  | error s => cases s <;> simp [mapErr]

@[simp] theorem expect_eq_ok {x : Run ε α} {a : α} : (expect x : Run ε' α) = .ok a ↔ x = .ok a := by
  cases x with
  | ok b => simp [expect]
  | error s => cases s <;> simp [expect]

end Run

/-! ### Sequences and traversals -/

namespace Except

variable {ε : Type} {α β : Type}

@[simp] theorem ok_bind (a : α) (f : α → Except ε β) : (Except.ok a >>= f) = f a := rfl

@[simp] theorem error_bind (e : ε) (f : α → Except ε β) : (Except.error e >>= f) = .error e := rfl

@[simp] theorem pure_eq_ok (a : α) : (pure a : Except ε α) = .ok a := rfl

/-- A sequence returns a value exactly when both its parts do. -/
theorem bind_eq_ok {x : Except ε α} {f : α → Except ε β} {b : β} :
    (x >>= f) = .ok b ↔ ∃ a, x = .ok a ∧ f a = .ok b := by
  cases x <;> simp

/-- A traversal returns a list exactly when it returns each element of it in turn. -/
theorem mapM_ok_iff {f : α → Except ε β} {xs : List α} {ys : List β} :
    xs.mapM f = .ok ys ↔ List.Forall₂ (fun x y => f x = .ok y) xs ys := by
  induction xs generalizing ys with
  | nil => cases ys <;> simp
  | cons x xs ih =>
    simp only [List.mapM_cons, bind_eq_ok, pure_eq_ok, Except.ok.injEq, List.forall₂_cons_left_iff, ih]
    constructor
    · rintro ⟨y, hy, ys', hys, rfl⟩
      exact ⟨y, ys', hy, hys, rfl⟩
    · rintro ⟨y, ys', hy, hys, rfl⟩
      exact ⟨y, hy, ys', hys, rfl⟩

/-- A traversal of what a traversal returns, by the items both passed. -/
theorem exists_mapM_mapM_iff {ε' γ : Type} {f : α → Except ε β} {g : β → Except ε' γ} {xs : List α} {zs : List γ} :
    (∃ ys, xs.mapM f = .ok ys ∧ ys.mapM g = .ok zs) ↔
      List.Forall₂ (fun x z => ∃ y, f x = .ok y ∧ g y = .ok z) xs zs := by
  simp only [mapM_ok_iff]
  constructor
  · rintro ⟨ys, hys, hzs⟩
    induction hys generalizing zs with
    | nil =>
      cases hzs
      exact List.Forall₂.nil
    | cons hhead _ ih =>
      cases hzs with
      | cons hhead' htail' => exact List.Forall₂.cons ⟨_, hhead, hhead'⟩ (ih htail')
  · intro h
    induction h with
    | nil => exact ⟨[], List.Forall₂.nil, List.Forall₂.nil⟩
    | cons hhead _ ih =>
      obtain ⟨y, hy, hz⟩ := hhead
      obtain ⟨ys, hys, hzs⟩ := ih
      exact ⟨y :: ys, List.Forall₂.cons hy hys, List.Forall₂.cons hz hzs⟩

/-- An item on the right of related lists is related to one on the left. -/
theorem exists_of_mem_forall₂ {R : α → β → Prop} {xs : List α} {ys : List β} (h : List.Forall₂ R xs ys) {y : β}
    (hy : y ∈ ys) : ∃ x ∈ xs, R x y := by
  induction h with
  | nil => cases hy
  | cons hhead _ ih =>
    rcases List.mem_cons.mp hy with rfl | hy
    · exact ⟨_, List.mem_cons_self .., hhead⟩
    · obtain ⟨x, hx, hxy⟩ := ih hy
      exact ⟨x, List.mem_cons_of_mem _ hx, hxy⟩

/-- An item on the right is related to the one in its place on the left. -/
theorem exists_of_getElem?_forall₂ {R : α → β → Prop} {xs : List α} {ys : List β} (h : List.Forall₂ R xs ys) {i : ℕ}
    {y : β} (hy : ys[i]? = some y) : ∃ x, xs[i]? = some x ∧ R x y := by
  obtain ⟨hi, rfl⟩ := List.getElem?_eq_some_iff.mp hy
  have hi' : i < xs.length := h.length_eq ▸ hi
  exact ⟨xs[i], List.getElem?_eq_getElem hi', h.get hi' hi⟩

/-- What a traversal returns in a place, the call there returned. -/
theorem exists_of_getElem?_mapM {f : α → Except ε β} {xs : List α} {ys : List β} (h : xs.mapM f = .ok ys) {i : ℕ}
    {y : β} (hy : ys[i]? = some y) : ∃ x, xs[i]? = some x ∧ f x = .ok y :=
  exists_of_getElem?_forall₂ (mapM_ok_iff.mp h) hy

/-- What a traversal returns, one of its calls returned. -/
theorem exists_of_mem_mapM {f : α → Except ε β} {xs : List α} {ys : List β} (h : xs.mapM f = .ok ys) {y : β}
    (hy : y ∈ ys) : ∃ x ∈ xs, f x = .ok y :=
  exists_of_mem_forall₂ (mapM_ok_iff.mp h) hy

/-- What one of its calls returned is in what a traversal returns. -/
theorem exists_mem_of_mapM {f : α → Except ε β} {xs : List α} {ys : List β} (h : xs.mapM f = .ok ys) {x : α}
    (hx : x ∈ xs) : ∃ y ∈ ys, f x = .ok y := by
  have hflip : List.Forall₂ (fun y x => f x = .ok y) ys xs := (mapM_ok_iff.mp h).flip
  exact exists_of_mem_forall₂ hflip hx

/-- A traversal stops as one of its calls does. -/
theorem exists_of_mapM_error {f : α → Except ε β} {xs : List α} {e : ε} (h : xs.mapM f = .error e) :
    ∃ x ∈ xs, f x = .error e := by
  induction xs with
  | nil => cases h
  | cons x xs ih =>
    rw [List.mapM_cons] at h
    cases hx : f x with
    | error e' =>
      rw [hx, error_bind, Except.error.injEq] at h
      exact ⟨x, List.mem_cons_self .., h ▸ hx⟩
    | ok y =>
      cases hxs : xs.mapM f with
      | error e' =>
        rw [hx, hxs, ok_bind, error_bind, Except.error.injEq] at h
        obtain ⟨x', hx', hf⟩ := ih (h ▸ hxs)
        exact ⟨x', List.mem_cons_of_mem _ hx', hf⟩
      | ok ys =>
        rw [hx, hxs, ok_bind, ok_bind] at h
        cases h

/-- A loop stops as one of its turns does, when those before it returned. -/
theorem foldlM_error_iff {f : β → α → Except ε β} {xs : List α} {b : β} {e : ε} : xs.foldlM f b = .error e ↔
    ∃ before x after b', xs = before ++ x :: after ∧ before.foldlM f b = .ok b' ∧ f b' x = .error e := by
  constructor
  · intro h
    induction xs generalizing b with
    | nil => cases h
    | cons x xs ih =>
      rw [List.foldlM_cons] at h
      cases hx : f b x with
      | error e' =>
        rw [hx, error_bind, Except.error.injEq] at h
        exact ⟨[], x, xs, b, rfl, rfl, h ▸ hx⟩
      | ok b₁ =>
        rw [hx, ok_bind] at h
        obtain ⟨before, y, after, b', rfl, hbefore, hy⟩ := ih h
        exact ⟨x :: before, y, after, b', rfl, by rw [List.foldlM_cons, hx, ok_bind, hbefore], hy⟩
  · rintro ⟨before, x, after, b', rfl, hbefore, hx⟩
    rw [List.foldlM_append, hbefore, ok_bind, List.foldlM_cons, hx, error_bind]

/-- Two traversals return the same in a place where their calls agree. -/
theorem getElem?_mapM_congr {f g : α → Except ε β} {xs : List α} {ys zs : List β} (h : xs.mapM f = .ok ys)
    (h' : xs.mapM g = .ok zs) {i : ℕ} (hfg : ∀ x, xs[i]? = some x → f x = g x) : ys[i]? = zs[i]? := by
  have hlen : ys.length = zs.length :=
    (mapM_ok_iff.mp h).length_eq.symm.trans (mapM_ok_iff.mp h').length_eq
  cases hy : ys[i]? with
  | none => exact (List.getElem?_eq_none (hlen ▸ List.getElem?_eq_none_iff.mp hy)).symm
  | some y =>
    have hi : i < zs.length := hlen ▸ (List.getElem?_eq_some_iff.mp hy).1
    obtain ⟨x, hx, hfx⟩ := exists_of_getElem?_mapM h hy
    obtain ⟨x', hx', hgx⟩ := exists_of_getElem?_mapM h' (List.getElem?_eq_getElem hi)
    obtain rfl : x = x' := Option.some.inj (hx.symm.trans hx')
    rw [hfg x hx, hgx] at hfx
    rw [List.getElem?_eq_getElem hi, Except.ok.inj hfx]

/-- When each call keeps what `k` reads of its argument, so does the traversal. -/
theorem map_eq_of_mapM {κ : Type} {f : α → Except ε β} {k : α → κ} {k' : β → κ} {xs : List α} {ys : List β}
    (h : xs.mapM f = .ok ys) (hk : ∀ x y, f x = .ok y → k' y = k x) : ys.map k' = xs.map k := by
  induction mapM_ok_iff.mp h with
  | nil => rfl
  | cons hhead htail ih => rw [List.map_cons, List.map_cons, hk _ _ hhead, ih (mapM_ok_iff.mpr htail)]

/-- Items that are all related to some item, are related to a list of them. -/
theorem exists_forall₂ {R : α → β → Prop} {xs : List α} (h : ∀ x ∈ xs, ∃ y, R x y) : ∃ ys, List.Forall₂ R xs ys := by
  induction xs with
  | nil => exact ⟨[], List.Forall₂.nil⟩
  | cons x xs ih =>
    obtain ⟨y, hy⟩ := h x (List.mem_cons_self ..)
    obtain ⟨ys, hys⟩ := ih fun z hz => h z (List.mem_cons_of_mem _ hz)
    exact ⟨y :: ys, List.Forall₂.cons hy hys⟩

/-- A traversal of calls that all return a value returns. -/
theorem exists_mapM {f : α → Except ε β} {xs : List α} (h : ∀ x ∈ xs, ∃ y, f x = .ok y) : ∃ ys, xs.mapM f = .ok ys := by
  obtain ⟨ys, hys⟩ := exists_forall₂ h
  exact ⟨ys, mapM_ok_iff.mpr hys⟩

/-- A traversal of calls that all return is a map. -/
theorem mapM_eq_map {f : α → Except ε β} {g : α → β} {xs : List α} (h : ∀ x ∈ xs, f x = .ok (g x)) :
    xs.mapM f = .ok (xs.map g) := by
  rw [mapM_ok_iff, List.forall₂_map_right_iff, List.forall₂_same]
  exact h

/-- Two traversals agree when their calls do. -/
theorem mapM_congr {f g : α → Except ε β} {xs : List α} (h : ∀ x ∈ xs, f x = g x) :
    xs.mapM f = xs.mapM g := by
  induction xs with
  | nil => rfl
  | cons x xs ih =>
    rw [List.mapM_cons, List.mapM_cons, h x (List.mem_cons_self ..),
      ih fun y hy => h y (List.mem_cons_of_mem _ hy)]

end Except

/-- A traversal of values that are all there is a map. -/
theorem Option.mapM_eq_map {α β : Type} {f : α → Option β} {g : α → β} {xs : List α} (h : ∀ x ∈ xs, f x = some (g x)) :
    xs.mapM f = some (xs.map g) := by
  induction xs with
  | nil => rfl
  | cons x xs ih =>
    rw [List.mapM_cons, h x (List.mem_cons_self ..), ih fun y hy => h y (List.mem_cons_of_mem _ hy)]
    rfl

namespace Run

variable {ε : Type} {α β : Type}

/-- A traversal of optional values returns when they are all there. -/
theorem exists_mapM_okOr_iff {e : ε} {f : α → Option β} {xs : List α} :
    (∃ ys, xs.mapM (fun x => (okOr e (f x) : Run ε β)) = .ok ys) ↔ ∀ x ∈ xs, (f x).isSome := by
  induction xs with
  | nil => simp
  | cons x xs ih =>
    rw [List.forall_mem_cons, ← ih, Option.isSome_iff_exists]
    simp only [List.mapM_cons, Except.bind_eq_ok, okOr_eq_ok, Except.pure_eq_ok, Except.ok.injEq]
    constructor
    · intro h
      obtain ⟨_, y, hy, ys, hys, -⟩ := h
      exact ⟨⟨y, hy⟩, ys, hys⟩
    · intro h
      obtain ⟨⟨y, hy⟩, ys, hys⟩ := h
      exact ⟨y :: ys, y, hy, ys, hys, rfl⟩

/-- A traversal of optional values ends at the first that is not there. -/
theorem mapM_okOr_of_find? {e : α → ε} {f : α → Option β} {xs : List α} {x : α}
    (h : (xs.find? fun x => (f x).isNone) = some x) : (xs.mapM fun x => (okOr (e x) (f x) : Run ε β)) = fail (e x) := by
  induction xs with
  | nil => cases h
  | cons x' xs ih =>
    rw [List.mapM_cons]
    cases hx : f x' with
    | none =>
      rw [List.find?_cons_of_pos (by rw [hx]; rfl), Option.some.injEq] at h
      rw [h]
      rfl
    | some b =>
      rw [List.find?_cons_of_neg (by rw [hx]; exact Bool.false_ne_true)] at h
      rw [ih h]
      rfl

end Run

/-! ### Calls that return -/

namespace Run

variable {ε : Type} {α β : Type}

/-- The call returns, a value or an error: it does not panic, and it comes back. -/
def Returns (x : Run ε α) : Prop := (∃ a, x = .ok a) ∨ ∃ e, x = fail e

@[simp] theorem returns_ok (a : α) : Returns (.ok a : Run ε α) := Or.inl ⟨a, rfl⟩

@[simp] theorem returns_fail (e : ε) : Returns (fail e : Run ε α) := Or.inr ⟨e, rfl⟩

@[simp] theorem not_returns_panic : ¬ Returns (.error .panic : Run ε α) := by
  rintro (⟨a, h⟩ | ⟨e, h⟩)
  · cases h
  · cases h

/-- A sequence returns when its first part does, and the second on what it is given. -/
theorem returns_bind {x : Run ε α} {f : α → Run ε β} :
    Returns (x >>= f) ↔ Returns x ∧ ∀ a, x = .ok a → Returns (f a) := by
  cases x with
  | ok a => simp
  | error s =>
    cases s with
    | err e => simp [Returns, fail]
    | panic => simp [Returns, fail]
    | diverge => simp [Returns, fail]

@[simp] theorem returns_okOr (e : ε) (o : Option α) : Returns (okOr e o) := by
  cases o with
  | none => exact returns_fail e
  | some a => exact returns_ok a

@[simp] theorem returns_ensure (c : Bool) (e : ε) : Returns (ensure c e) := by
  cases c
  · exact returns_fail e
  · exact returns_ok ()

@[simp] theorem returns_assert {c : Bool} : Returns (assert c : Run ε Unit) ↔ c = true := by
  cases c <;> simp [assert]

@[simp] theorem returns_slice {xs : List α} {start end_ : ℕ} :
    Returns (slice xs start end_ : Run ε _) ↔ start ≤ end_ ∧ end_ ≤ xs.length := by
  unfold slice
  split_ifs with h <;> simp [h]

@[simp] theorem returns_mapErr {ε' : Type} {f : ε → ε'} {x : Run ε α} : Returns (mapErr f x) ↔ Returns x := by
  cases x with
  | ok a => simp
  | error s =>
    cases s with
    | err e => exact iff_of_true (returns_fail (f e)) (returns_fail e)
    | panic => simp [mapErr]
    | diverge => simp [mapErr, Returns, fail]

/-- A call that returns, but no value, returns an error. -/
theorem Returns.exists_fail {x : Run ε α} (h : Returns x) (hne : ∀ a, x ≠ .ok a) : ∃ e, x = fail e := by
  rcases h with ⟨a, ha⟩ | he
  · exact absurd ha (hne a)
  · exact he

/-- A loop returns when each of its turns does. -/
theorem returns_foldlM {f : β → α → Run ε β} (h : ∀ b a, Returns (f b a)) (xs : List α) (b : β) :
    Returns (xs.foldlM f b) := by
  induction xs generalizing b with
  | nil => exact returns_ok b
  | cons x xs ih =>
    rw [List.foldlM_cons, returns_bind]
    exact ⟨h b x, fun b' _ => ih b'⟩

/-- A traversal of calls that never return an error returns when they all return a value. -/
theorem returns_mapM_iff {f : α → Run ε β} {xs : List α} (h : ∀ x ∈ xs, ∀ e, f x ≠ fail e) :
    Returns (xs.mapM f) ↔ ∀ x ∈ xs, ∃ y, f x = .ok y := by
  constructor
  · rintro (⟨ys, hys⟩ | ⟨e, he⟩) x hx
    · obtain ⟨y, -, hy⟩ := Except.exists_mem_of_mapM hys hx
      exact ⟨y, hy⟩
    · obtain ⟨x', hx', hfail⟩ := Except.exists_of_mapM_error he
      exact absurd hfail (h x' hx' e)
  · intro hok
    obtain ⟨ys, hys⟩ := Except.exists_mapM hok
    exact Or.inl ⟨ys, hys⟩

/-- A traversal returns when all its calls do. -/
theorem returns_mapM {f : α → Run ε β} {xs : List α} (h : ∀ x ∈ xs, Returns (f x)) : Returns (xs.mapM f) := by
  induction xs with
  | nil => exact returns_ok []
  | cons x xs ih =>
    rw [List.mapM_cons, returns_bind]
    refine ⟨h x (List.mem_cons_self ..), fun y _ => ?_⟩
    rw [returns_bind]
    exact ⟨ih fun z hz => h z (List.mem_cons_of_mem _ hz), fun ys _ => returns_ok _⟩

end Run

end AvailCore
