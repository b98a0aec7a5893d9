import AvailCore.Foundation.Run

/-!
# Readers

A reader fills buffers, one call after another, from where the last call left it. Two
readers that answer each call alike answer every sequence of calls alike
(`Simulates.reads`), so that what holds of the reader of a slice, which is the simplest
one, holds of all that read as it does.
-/

namespace AvailCore

/-- What a call returns: how many items it wrote, and its buffer, which they are the first of. -/
structure Filled (α : Type) where
  count : ℕ
  buf : List α
  deriving DecidableEq, Repr

/-- The items a call wrote. -/
def Filled.written {α : Type} (f : Filled α) : List α := f.buf.take f.count

/-- A reader: the call with a buffer, from a state to the next one. -/
abbrev Reader (ε α σ : Type) : Type := σ → List α → Run ε (Filled α × σ)

namespace Reader

variable {ε α σ τ : Type}

/-- Calls one after another, each with a buffer of its own. -/
def reads (R : Reader ε α σ) : σ → List (List α) → Run ε (List (Filled α) × σ)
  | s, [] => return ([], s)
  | s, buf :: bufs => do
    let (filled, s) ← R s buf
    let (rest, s) ← R.reads s bufs
    return (filled :: rest, s)

/-- The reader of a slice: it writes as many items as there are and as fit. -/
def ofSlice : Reader ε α (List α) := fun data buf =>
  let amt := min buf.length data.length
  .ok (⟨amt, data.take amt ++ buf.drop amt⟩, data.drop amt)

theorem reads_cons {R : Reader ε α σ} {s s₁ s' : σ} {buf : List α} {bufs : List (List α)} {f : Filled α}
    {filled : List (Filled α)} (h : R s buf = .ok (f, s₁)) (h' : R.reads s₁ bufs = .ok (filled, s')) :
    R.reads s (buf :: bufs) = .ok (f :: filled, s') := by
  simp only [reads, h, h', Except.ok_bind]
  rfl

/-- From states that are related, either reader returns the same, and the states stay related. -/
def Simulates (R : Reader ε α σ) (R' : Reader ε α τ) (related : σ → τ → Prop) : Prop :=
  ∀ s t buf, related s t → ∃ filled s' t', R s buf = .ok (filled, s') ∧ R' t buf = .ok (filled, t') ∧ related s' t'

/-- **What answers each call alike answers all calls alike.** -/
theorem Simulates.reads {R : Reader ε α σ} {R' : Reader ε α τ} {related : σ → τ → Prop} (h : Simulates R R' related)
    (bufs : List (List α)) {s : σ} {t : τ} (hst : related s t) :
    ∃ filled s' t', R.reads s bufs = .ok (filled, s') ∧ R'.reads t bufs = .ok (filled, t') ∧ related s' t' := by
  induction bufs generalizing s t with
  | nil => exact ⟨[], s, t, rfl, rfl, hst⟩
  | cons buf bufs ih =>
    obtain ⟨filled, s₁, t₁, hs, ht, hst₁⟩ := h s t buf hst
    obtain ⟨rest, s', t', hs', ht', hst'⟩ := ih hst₁
    exact ⟨filled :: rest, s', t', reads_cons hs hs', reads_cons ht ht', hst'⟩

/-! ### The calls on a slice -/

/-- What the calls wrote. -/
def written (filled : List (Filled α)) : List α := filled.flatMap Filled.written

/-- Calls fill their buffers from `data`, and leave `rest`. -/
structure Fills (data : List α) (bufs : List (List α)) (filled : List (Filled α)) (rest : List α) : Prop where
  /-- Nothing is lost, and nothing comes twice. -/
  written_append : written filled ++ rest = data
  length : filled.length = bufs.length
  /-- Each call writes what fits of what the ones before it left. -/
  count : ∀ (k : ℕ) (buf : List α) (f : Filled α), bufs[k]? = some buf → filled[k]? = some f →
    f.count = min buf.length (data.length - (written (filled.take k)).length)
  /-- A buffer is as it was behind what is written to it. -/
  buf_drop : ∀ (k : ℕ) (buf : List α) (f : Filled α), bufs[k]? = some buf → filled[k]? = some f →
    f.buf.length = buf.length ∧ f.buf.drop f.count = buf.drop f.count

/-- One call. -/
theorem ofSlice_eq_ok {data buf rest : List α} {f : Filled α} (h : (ofSlice data buf : Run ε _) = .ok (f, rest)) :
    f.count = min buf.length data.length ∧ f.buf.length = buf.length ∧ f.buf.drop f.count = buf.drop f.count ∧
      f.written ++ rest = data := by
  cases h
  have hbuf : min buf.length data.length ≤ buf.length := Nat.min_le_left ..
  have hlen : (data.take (min buf.length data.length)).length = min buf.length data.length :=
    List.length_take_of_le (Nat.min_le_right ..)
  refine ⟨rfl, ?_, ?_, ?_⟩
  · rw [List.length_append, hlen, List.length_drop, Nat.add_sub_cancel' hbuf]
  · exact List.drop_left' hlen
  · rw [Filled.written, List.take_left' hlen, List.take_append_drop]

/-- **The calls on a slice fill their buffers from it.** -/
theorem fills_ofSlice {data : List α} {bufs : List (List α)} {filled : List (Filled α)} {rest : List α}
    (h : (ofSlice.reads data bufs : Run ε _) = .ok (filled, rest)) : Fills data bufs filled rest := by
  induction bufs generalizing data filled with
  | nil =>
    cases h
    exact ⟨rfl, rfl, by simp, by simp⟩
  | cons buf bufs ih =>
    simp only [reads, Except.bind_eq_ok, Prod.exists, Except.pure_eq_ok, Except.ok.injEq, Prod.mk.injEq] at h
    obtain ⟨f, data', hcall, filled', rest', hcalls, rfl, rfl⟩ := h
    obtain ⟨hcount, hlen, hdrop, hdata⟩ := ofSlice_eq_ok hcall
    have hrest := ih hcalls
    have hwritten : ∀ fs, written (f :: fs) = f.written ++ written fs := fun fs => List.flatMap_cons ..
    refine ⟨?_, ?_, ?_, ?_⟩
    · rw [hwritten, List.append_assoc, hrest.written_append, hdata]
    · rw [List.length_cons, List.length_cons, hrest.length]
    · intro k buf' f' hbuf' hf'
      cases k with
      | zero =>
        cases hbuf'
        cases hf'
        exact hcount
      | succ k =>
        have hbytes : data'.length - (written (filled'.take k)).length =
            data.length - (written ((f :: filled').take (k + 1))).length := by
          rw [List.take_succ_cons, hwritten, ← hdata, List.length_append, List.length_append]
          omega
        rw [hrest.count k buf' f' hbuf' hf', hbytes]
    · intro k buf' f' hbuf' hf'
      cases k with
      | zero =>
        cases hbuf'
        cases hf'
        exact ⟨hlen, hdrop⟩
      | succ k => exact hrest.buf_drop k buf' f' hbuf' hf'

end Reader

end AvailCore
