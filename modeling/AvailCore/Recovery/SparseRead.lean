import AvailCore.Foundation.Reader
import AvailCore.Recovery.Unflatten

/-!
# Reading scattered bytes

`SparseSliceRead::read` of `kate/recovery/src/sparse_slice_read.rs`, turn by turn. Each
turn takes the first part, copies what fits of it to the front of the buffer, goes on with
the buffer behind, and puts what did not fit back.

## The model

A buffer is its bytes: those written, in order, and those that are not yet. A loop that
goes through all the turns it is given diverges.

## What is proved

The loop ends within one turn more than there are parts, and is the recursion that
`unflatten_padded_data` is modelled by (`readLoop_eq`). Call after call, it answers as the
reader of the parts put together does (`sparseReader_simulates`), so that from any calls
the same bytes are read, each once (`sparse_reads_contiguous`).
-/

namespace AvailCore

/-- Where the loop stands: the parts, the bytes it counted, and its buffer, up to where it is written and
from there on. -/
structure ReadState where
  parts : List (List UInt8)
  bytes : ℕ
  written : List UInt8
  buf : List UInt8

/-- One turn of the loop; at its `break`, there is no state to go on with. -/
def readTurn {ε : Type} (s : ReadState) : Run ε (Option ReadState) :=
  match s.parts with
  | [] => return none
  | nextPart :: parts =>
    if s.buf.length = 0 then return none
    else do
      let copiedLen := min nextPart.length s.buf.length
      let (source, pendingNextPart) ← Run.splitAt nextPart copiedLen
      let (dest, pendingBuf) ← Run.splitAt s.buf copiedLen
      -- `copy_from_slice`
      Run.assert (dest.length = source.length)
      return some {
        parts := if pendingNextPart.isEmpty then parts else pendingNextPart :: parts
        bytes := s.bytes + copiedLen
        written := s.written ++ source
        buf := pendingBuf }

/-- The loop, for so many turns. -/
def readLoop {ε : Type} : ℕ → ReadState → Run ε ReadState
  | 0, _ => .error .diverge
  | turns + 1, s => do
    match ← readTurn s with
    | none => return s
    | some s => readLoop turns s

/-- `SparseSliceRead::read` -/
def sparseReader {ε : Type} (turns : ℕ) : Reader ε UInt8 (List (List UInt8)) := fun parts buf => do
  let s ← readLoop turns ⟨parts, 0, [], buf⟩
  return (⟨s.bytes, s.written ++ s.buf⟩, s.parts)

section Loop

variable {ε : Type} {nextPart : List UInt8} {parts : List (List UInt8)} {bytes : ℕ} {written buf : List UInt8}

/-- **What a turn does**, with a part and room for some of it. -/
theorem readTurn_eq (hbuf : buf.length ≠ 0) {n : ℕ} (hn : min nextPart.length buf.length = n) :
    (readTurn ⟨nextPart :: parts, bytes, written, buf⟩ : Run ε _) = .ok (some {
      parts := if (nextPart.drop n).isEmpty then parts else nextPart.drop n :: parts
      bytes := bytes + n
      written := written ++ nextPart.take n
      buf := buf.drop n }) := by
  have hpart : n ≤ nextPart.length := hn ▸ Nat.min_le_left ..
  have hroom : n ≤ buf.length := hn ▸ Nat.min_le_right ..
  have hsource : (Run.splitAt nextPart n : Run ε _) = .ok (nextPart.take n, nextPart.drop n) := if_pos hpart
  have hdest : (Run.splitAt buf n : Run ε _) = .ok (buf.take n, buf.drop n) := if_pos hroom
  have hsame : (buf.take n).length = (nextPart.take n).length := by
    rw [List.length_take_of_le hroom, List.length_take_of_le hpart]
  simp only [readTurn, if_neg hbuf, hn, hsource, hdest, Except.ok_bind, hsame]
  rfl

theorem readLoop_of_full {turns : ℕ} (h : buf.length = 0) :
    (readLoop (turns + 1) ⟨parts, bytes, written, buf⟩ : Run ε _) = .ok ⟨parts, bytes, written, buf⟩ := by
  cases parts with
  | nil => rfl
  | cons nextPart parts => simp [readLoop, readTurn, h]

/-- **The loop ends**, one turn after it has read the last part at the latest, and does what the recursion does. -/
theorem readLoop_eq {turns : ℕ} (h : parts.length < turns) :
    (readLoop turns ⟨parts, bytes, written, buf⟩ : Run ε _) = .ok {
      parts := (sparseSliceRead parts buf.length).2
      bytes := bytes + (sparseSliceRead parts buf.length).1.length
      written := written ++ (sparseSliceRead parts buf.length).1
      buf := buf.drop (sparseSliceRead parts buf.length).1.length } := by
  induction parts generalizing bytes written buf turns with
  | nil =>
    obtain ⟨turns, rfl⟩ := Nat.exists_eq_add_one_of_ne_zero (Nat.ne_zero_of_lt h)
    simp [readLoop, readTurn, sparseSliceRead]
  | cons nextPart parts ih =>
    obtain ⟨turns, rfl⟩ := Nat.exists_eq_add_one_of_ne_zero (Nat.ne_zero_of_lt h)
    have hturns : parts.length < turns := Nat.lt_of_succ_lt_succ h
    by_cases hfull : buf.length = 0
    · rw [readLoop_of_full hfull]
      simp [sparseSliceRead, hfull]
    · by_cases hle : nextPart.length ≤ buf.length
      · -- the whole part is read
        have hmin : min nextPart.length buf.length = nextPart.length := Nat.min_eq_left hle
        rw [readLoop, readTurn_eq hfull hmin, Except.ok_bind]
        simp only [List.drop_length, List.isEmpty_nil, if_true, List.take_length]
        rw [ih hturns, sparseSliceRead, if_neg hfull, hmin]
        simp [Nat.add_assoc, List.drop_drop]
      · -- the buffer is filled, and the next turn is the last
        have hmin : min nextPart.length buf.length = buf.length := Nat.min_eq_right (Nat.le_of_not_le hle)
        have hrest : (nextPart.drop buf.length).isEmpty = false := by
          rw [List.isEmpty_eq_false_iff, Ne, List.drop_eq_nil_iff]
          exact hle
        obtain ⟨turns, rfl⟩ := Nat.exists_eq_add_one_of_ne_zero (Nat.ne_zero_of_lt hturns)
        rw [readLoop, readTurn_eq hfull hmin, Except.ok_bind]
        simp only [hrest, Bool.false_eq_true, if_false]
        rw [readLoop_of_full (by simp), sparseSliceRead, if_neg hfull, hmin]
        simp [hrest, List.length_take_of_le (Nat.le_of_not_le hle)]

end Loop

/-- A call leaves no more parts than there were. -/
theorem length_sparseSliceRead_le (parts : List (List UInt8)) (n : ℕ) :
    (sparseSliceRead parts n).2.length ≤ parts.length := by
  induction parts generalizing n with
  | nil => exact le_rfl
  | cons nextPart parts ih =>
    by_cases hfull : n = 0
    · rw [sparseSliceRead, if_pos hfull]
    · rw [sparseSliceRead, if_neg hfull]
      dsimp only
      split_ifs
      · exact (ih _).trans (Nat.le_succ _)
      · exact le_rfl

/-- **The reader of scattered bytes reads as the reader of the bytes put together.** -/
theorem sparseReader_simulates {ε : Type} (turns : ℕ) :
    Reader.Simulates (sparseReader turns : Reader ε _ _) Reader.ofSlice
      fun parts data => parts.length < turns ∧ parts.flatten = data := by
  rintro parts data buf ⟨hturns, rfl⟩
  obtain ⟨hread, hrest⟩ := sparseSliceRead_eq parts buf.length
  have hcount : (sparseSliceRead parts buf.length).1.length = min buf.length parts.flatten.length := by
    rw [hread, List.length_take]
  have htake : parts.flatten.take buf.length = parts.flatten.take (min buf.length parts.flatten.length) :=
    List.take_eq_take_min
  have hdrop : parts.flatten.drop buf.length = parts.flatten.drop (min buf.length parts.flatten.length) :=
    List.drop_eq_drop_min
  refine ⟨_, _, _, ?_, rfl, (length_sparseSliceRead_le parts buf.length).trans_lt hturns, hrest.trans hdrop⟩
  rw [sparseReader, readLoop_eq hturns, Except.ok_bind, hcount, hread, htake, Nat.zero_add, List.nil_append]
  rfl

/-- **Reading from scattered parts is reading from the parts put together**, over any calls: the loop of each
ends, each returns what fits of what is left, and what they write, in order, is followed by what is left. -/
theorem sparse_reads_contiguous {ε : Type} (parts bufs : List (List UInt8)) (extra : ℕ) :
    ∃ filled rest, ((sparseReader (parts.length + 1 + extra)).reads parts bufs : Run ε _) = .ok (filled, rest) ∧
      (Reader.ofSlice.reads parts.flatten bufs : Run ε _) = .ok (filled, rest.flatten) ∧
      Reader.Fills parts.flatten bufs filled rest.flatten := by
  have hturns : parts.length < parts.length + 1 + extra := by omega
  obtain ⟨filled, rest, data, hsparse, hslice, -, rfl⟩ :=
    (@sparseReader_simulates ε _).reads bufs ⟨hturns, rfl⟩
  exact ⟨filled, rest, hsparse, hslice, Reader.fills_ofSlice hslice⟩

/-- A buffer across three parts, one of them empty. -/
example : (sparseReader 4 [[1, 2], [], [3, 4]] [0, 0, 0] : Run Unit _) = .ok (⟨3, [1, 2, 3]⟩, [[4]]) := rfl

end AvailCore
