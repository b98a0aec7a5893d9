import AvailCore.Foundation.Interleave
import AvailCore.Kate.BuildProof

/-!
# Proofs of cells in any order

`build_proof` of `kate/src/com.rs` proves its cells in parallel. A closure for each cell
reads the matrix, and then either pushes an error on a list that is behind a lock, or
copies the proof and the value of its cell into its own chunk of a buffer of zeros, one
after the other. When all have ended, an error is popped, or the buffer returned.

## The model

A closure is the list of its steps on what is shared (`proofSteps`), and a run takes the
steps of all closures in any order that keeps each closure's own (`BuildProofRun`). A
panic of one of them is one of the call, once the others have ended.

## What is proved

A call that returns bytes, in whatever order, has proved all cells, and the bytes of each
are its proof and its value (`buildProofRun_returns_iff`): no error is lost, and no chunk
is left at zeros. `buildProof` is the run of the closures one after another
(`buildProofRun_buildProof`).
-/

namespace AvailCore

open Chunks

/-- What the closures share: `locked_errors`, and the chunks of `result_bytes`. -/
structure SharedProofs where
  errors : List KateError
  chunks : List (List UInt8)

/-- What a closure does to it at a time. -/
inductive ProofStep where
  /-- `errors.push(e)`, under the lock. -/
  | push (e : KateError)
  /-- `res[start..].copy_from_slice(bytes)`, where `res` is the `k`-th chunk. -/
  | copy (k start : ℕ) (bytes : List UInt8)

/-- `res[start..].copy_from_slice(bytes)` -/
def copyFromSlice (start : ℕ) (bytes res : List UInt8) : List UInt8 :=
  res.take start ++ bytes ++ res.drop (start + bytes.length)

/-- The step, on what is shared. -/
def ProofStep.apply (s : SharedProofs) : ProofStep → SharedProofs
  | .push e => { s with errors := s.errors ++ [e] }
  | .copy k start bytes => { s with chunks := s.chunks.modify k (copyFromSlice start bytes) }

/-- The steps of the closure of the `k`-th cell, by what it computes: its proof, then its value. -/
def proofSteps (k : ℕ) : Run KateError (List UInt8) → List ProofStep
  | .ok bytes => [.copy k 0 (bytes.take commitmentSize), .copy k commitmentSize (bytes.drop commitmentSize)]
  | .error (.err e) => [.push e]
  | .error _ => []

/-- `errors.pop()`, and what is returned. -/
def popError (s : SharedProofs) : Run KateError (List UInt8) :=
  match s.errors.getLast? with
  | some e => Run.fail e
  | none => .ok s.chunks.flatten

/-- The allocation of `vec![0; n]`, which panics for more than `isize::MAX` bytes. -/
def allocateZeroed {ε : Type} (n : ℕ) : Run ε Unit := Run.assert (n < 2 ^ 63)

section ProofRuns

variable {C P : Type} {nrows ncols : ℕ} (b : Build) (A : Ark) (S : CellScheme C P) (blockDims : BlockDimensions)
  (extDataMatrix : DMatrix ArkScalar nrows ncols) (cells : List Cell)

/-- The length of `result_bytes`. -/
def resultLen : ℕ := saturatingMul sproofSize cells.length

/-- `build_proof`, before it looks at the cells. -/
def proofSetup : Run KateError (Dimensions × Dimensions × EvaluationDomain) := do
  let dims ← makeDims blockDims
  let extDims ← Run.okOr .invalidDimensionExtension (dims.extend rowExtension colExtension)
  let rowEvalDomain ← Run.okOr .domainSizeInvalid (A.newDomain dims.width)
  allocateZeroed (resultLen cells)
  return (dims, extDims, rowEvalDomain)

/-- What each closure computes, with the number of its chunk. -/
def closures (dims extDims : Dimensions) (domain : EvaluationDomain) : List (ℕ × Run KateError (List UInt8)) :=
  (List.range (resultLen cells / sproofSize)).zip
    (cells.map (cellProof b A S blockDims extDataMatrix dims extDims domain))

/-- What is shared at first. -/
def startProofs : SharedProofs := ⟨[], chunksExact sproofSize (List.replicate (resultLen cells) 0)⟩

/-- `build_proof`: a run of its closures in some order, and how it ends. -/
inductive BuildProofRun : Run KateError (List UInt8) → Prop where
  /-- The call ends before it looks at the cells. -/
  | stop {s : Stop KateError} : proofSetup A blockDims cells = .error s → BuildProofRun (.error s)
  /-- One of the closures does not end. -/
  | panic {dims extDims : Dimensions} {domain : EvaluationDomain} {closure : ℕ × Run KateError (List UInt8)}
      {s : Stop KateError} : proofSetup A blockDims cells = .ok (dims, extDims, domain) →
      closure ∈ closures b A S blockDims extDataMatrix cells dims extDims domain → closure.2 = .error s →
      ¬ closure.2.Returns → BuildProofRun (.error s)
  /-- All of them end. -/
  | join {dims extDims : Dimensions} {domain : EvaluationDomain} {steps : List ProofStep} :
      proofSetup A blockDims cells = .ok (dims, extDims, domain) →
      (∀ closure ∈ closures b A S blockDims extDataMatrix cells dims extDims domain, closure.2.Returns) →
      Interleaving ((closures b A S blockDims extDataMatrix cells dims extDims domain).map fun closure =>
        proofSteps closure.1 closure.2) steps →
      BuildProofRun (popError (steps.foldl ProofStep.apply (startProofs cells)))

end ProofRuns

/-! ### What the steps do -/

/-- The error that a step pushes. -/
def ProofStep.error? : ProofStep → Option KateError
  | .push e => some e
  | .copy .. => none

/-- Errors are pushed in the order of the steps. -/
theorem errors_foldl_apply (steps : List ProofStep) (s : SharedProofs) :
    (steps.foldl ProofStep.apply s).errors = s.errors ++ steps.filterMap ProofStep.error? := by
  induction steps generalizing s with
  | nil => simp
  | cons step steps ih =>
    rw [List.foldl_cons, ih]
    cases step with
    | push e => simp [ProofStep.apply, ProofStep.error?]
    | copy k start bytes => rw [List.filterMap_cons_none rfl, ProofStep.apply]

/-- No chunk is added or taken away. -/
theorem length_chunks_foldl_apply (steps : List ProofStep) (s : SharedProofs) :
    (steps.foldl ProofStep.apply s).chunks.length = s.chunks.length := by
  induction steps generalizing s with
  | nil => rfl
  | cons step steps ih =>
    rw [List.foldl_cons, ih]
    cases step with
    | push e => rfl
    | copy k start bytes => exact List.length_modify ..

/-- Bytes are returned when no error was pushed. -/
theorem popError_eq_ok_iff {s : SharedProofs} {bytes : List UInt8} :
    popError s = .ok bytes ↔ s.errors = [] ∧ bytes = s.chunks.flatten := by
  unfold popError
  cases hlast : s.errors.getLast? with
  | some e =>
    refine iff_of_false (fun h => by cases h) ?_
    rintro ⟨hnil, -⟩
    rw [hnil] at hlast
    cases hlast
  | none => rw [Except.ok.injEq, List.getLast?_eq_none_iff.mp hlast, eq_comm, and_iff_right rfl]

/-- A step of another closure leaves a chunk as it is. -/
theorem chunk_apply_of_ne {i k : ℕ} (h : i ≠ k) {outcome : Run KateError (List UInt8)} {step : ProofStep}
    (hstep : step ∈ proofSteps i outcome) (s : SharedProofs) : (step.apply s).chunks[k]? = s.chunks[k]? := by
  have hcopy : ∀ start bytes, ((ProofStep.copy i start bytes).apply s).chunks[k]? = s.chunks[k]? := by
    intro start bytes
    exact List.getElem?_modify_ne _ _ h
  match outcome with
  | .ok bytes =>
    rw [proofSteps, List.mem_pair] at hstep
    obtain rfl | rfl := hstep
    · exact hcopy _ _
    · exact hcopy _ _
  | .error (.err e) =>
    obtain rfl := List.mem_singleton.mp hstep
    rfl
  | .error .panic => cases hstep
  | .error .diverge => cases hstep

/-- A step changes a chunk by what the chunk is. -/
theorem chunk_apply_congr {k : ℕ} (step : ProofStep) {s s' : SharedProofs} (h : s.chunks[k]? = s'.chunks[k]?) :
    (step.apply s).chunks[k]? = (step.apply s').chunks[k]? := by
  cases step with
  | push e => exact h
  | copy i start bytes => rw [ProofStep.apply, ProofStep.apply, List.getElem?_modify, List.getElem?_modify, h]

/-- Both copies fill the chunk. -/
theorem copyFromSlice_twice {res bytes : List UInt8} (hres : res.length = sproofSize)
    (hbytes : bytes.length = sproofSize) :
    copyFromSlice commitmentSize (bytes.drop commitmentSize) (copyFromSlice 0 (bytes.take commitmentSize) res) =
      bytes := by
  have hproof : (bytes.take commitmentSize).length = commitmentSize := by
    rw [List.length_take, hbytes]
    rfl
  have hvalue : (bytes.drop commitmentSize).length = sproofSize - commitmentSize := by
    rw [List.length_drop, hbytes]
  have hfirst : copyFromSlice 0 (bytes.take commitmentSize) res =
      bytes.take commitmentSize ++ res.drop commitmentSize := by
    rw [copyFromSlice, hproof, List.take_zero, List.nil_append, Nat.zero_add]
  have hend : (bytes.take commitmentSize ++ res.drop commitmentSize).length =
      commitmentSize + (sproofSize - commitmentSize) := by
    rw [List.length_append, hproof, List.length_drop, hres]
  rw [hfirst, copyFromSlice, List.take_left' hproof, hvalue, List.drop_of_length_le hend.le, List.append_nil,
    List.take_append_drop]

/-- The closures of a list of outcomes. -/
theorem mem_threads_iff {outcomes : List (Run KateError (List UInt8))} {step : ProofStep} :
    (∃ thread ∈ ((List.range outcomes.length).zip outcomes).map fun closure => proofSteps closure.1 closure.2,
      step ∈ thread) ↔ ∃ k outcome, outcomes[k]? = some outcome ∧ step ∈ proofSteps k outcome := by
  simp only [List.mem_map, Prod.exists]
  constructor
  · rintro ⟨_, ⟨k, outcome, hmem, rfl⟩, hstep⟩
    obtain ⟨i, hi⟩ := List.mem_iff_getElem?.mp hmem
    obtain ⟨hk, houtcome⟩ := List.getElem?_zip_eq_some.mp hi
    obtain ⟨hlt, rfl⟩ := List.getElem?_eq_some_iff.mp hk
    rw [List.getElem_range] at hstep
    exact ⟨i, outcome, houtcome, hstep⟩
  · rintro ⟨k, outcome, houtcome, hstep⟩
    have hk : (List.range outcomes.length)[k]? = some k :=
      List.getElem?_range (List.getElem?_eq_some_iff.mp houtcome).1
    exact ⟨_, ⟨k, outcome, List.mem_of_getElem? (List.getElem?_zip_eq_some.mpr ⟨hk, houtcome⟩), rfl⟩, hstep⟩

section Join

variable {outcomes : List (Run KateError (List UInt8))} {steps : List ProofStep}
  (hrun : Interleaving (((List.range outcomes.length).zip outcomes).map fun closure => proofSteps closure.1 closure.2)
    steps)
include hrun

/-- **No error is lost**: there is one exactly when a closure had one. -/
theorem errors_join_eq_nil_iff (chunks : List (List UInt8)) : (steps.foldl ProofStep.apply ⟨[], chunks⟩).errors = [] ↔
    ∀ outcome ∈ outcomes, ∀ e, outcome ≠ Run.fail e := by
  rw [errors_foldl_apply, List.nil_append, List.filterMap_eq_nil_iff]
  constructor
  · intro hnone outcome houtcome e he
    obtain ⟨k, hk⟩ := List.mem_iff_getElem?.mp houtcome
    have hstep : ProofStep.push e ∈ steps :=
      hrun.mem_iff.mpr (mem_threads_iff.mpr ⟨k, outcome, hk, he ▸ List.mem_singleton_self _⟩)
    cases hnone _ hstep
  · intro hok step hstep
    obtain ⟨k, outcome, houtcome, hstep⟩ := mem_threads_iff.mp (hrun.mem_iff.mp hstep)
    match outcome with
    | .ok bytes =>
      rw [proofSteps, List.mem_pair] at hstep
      obtain rfl | rfl := hstep
      · rfl
      · rfl
    | .error (.err e) => exact absurd rfl (hok _ (List.mem_of_getElem? houtcome) e)
    | .error .panic => cases hstep
    | .error .diverge => cases hstep

/-- **Each chunk is what its closure computed**, whatever the others did, and when. -/
theorem chunk_join {chunks : List (List UInt8)} {k : ℕ} {res bytes : List UInt8} (hres : chunks[k]? = some res)
    (hlen : res.length = sproofSize) (hbytes : bytes.length = sproofSize) (hk : outcomes[k]? = some (.ok bytes)) :
    (steps.foldl ProofStep.apply ⟨[], chunks⟩).chunks[k]? = some bytes := by
  have hrange : (List.range outcomes.length)[k]? = some k := List.getElem?_range (List.getElem?_eq_some_iff.mp hk).1
  have hthread : (((List.range outcomes.length).zip outcomes).map fun closure => proofSteps closure.1 closure.2)[k]? =
      some (proofSteps k (.ok bytes)) := by
    have hclosure : ((List.range outcomes.length).zip outcomes)[k]? = some (k, .ok bytes) :=
      List.getElem?_zip_eq_some.mpr ⟨hrange, hk⟩
    rw [List.getElem?_map, hclosure, Option.map_some]
  rw [@Interleaving.foldl_view _ _ _ _ _ ProofStep.apply (fun s => s.chunks[k]?) hrun _ _ hthread ?_
    (fun step _ _ _ h => chunk_apply_congr step h) _ _ rfl]
  · simp only [proofSteps, List.foldl_cons, List.foldl_nil, ProofStep.apply, List.getElem?_modify_eq, hres]
    exact congrArg some (copyFromSlice_twice hlen hbytes)
  · intro j thread hj hne step hstep s
    rw [List.getElem?_map, Option.map_eq_some_iff] at hj
    obtain ⟨⟨i, outcome⟩, hi, rfl⟩ := hj
    obtain ⟨hi, -⟩ := List.getElem?_zip_eq_some.mp hi
    obtain ⟨hlt, rfl⟩ := List.getElem?_eq_some_iff.mp hi
    rw [List.getElem_range] at hstep
    exact chunk_apply_of_ne hne hstep s

/-- When each closure returned bytes, these are the chunks. -/
theorem chunks_join_eq (hlen : ∀ bytes, .ok bytes ∈ outcomes → bytes.length = sproofSize) {chunks : List (List UInt8)}
    (hall : List.Forall₂ (fun outcome chunk => outcome = .ok chunk) outcomes chunks) :
    (steps.foldl ProofStep.apply ⟨[], List.replicate outcomes.length (List.replicate sproofSize 0)⟩).chunks = chunks := by
  have hlength : (steps.foldl ProofStep.apply
      ⟨[], List.replicate outcomes.length (List.replicate sproofSize 0)⟩).chunks.length = chunks.length := by
    rw [length_chunks_foldl_apply, List.length_replicate, hall.length_eq]
  refine List.ext_getElem hlength fun k hk hk' => ?_
  obtain ⟨outcome, houtcome, rfl⟩ := Except.exists_of_getElem?_forall₂ hall (List.getElem?_eq_getElem hk')
  have hzeros : (List.replicate outcomes.length (List.replicate sproofSize (0 : UInt8)))[k]? =
      some (List.replicate sproofSize 0) := by
    rw [List.getElem?_replicate, if_pos (List.getElem?_eq_some_iff.mp houtcome).1]
  have hchunk := chunk_join hrun hzeros List.length_replicate (hlen _ (List.mem_of_getElem? houtcome)) houtcome
  rw [List.getElem?_eq_getElem hk, Option.some.injEq] at hchunk
  exact hchunk

/-- When all closures end, the bytes are returned that they computed, if all did. -/
theorem popError_join_eq_ok_iff (hreturns : ∀ outcome ∈ outcomes, outcome.Returns)
    (hlen : ∀ bytes, .ok bytes ∈ outcomes → bytes.length = sproofSize) {bytes : List UInt8} :
    popError (steps.foldl ProofStep.apply ⟨[], List.replicate outcomes.length (List.replicate sproofSize 0)⟩) =
      .ok bytes ↔ ∃ chunks, List.Forall₂ (fun outcome chunk => outcome = .ok chunk) outcomes chunks ∧
        bytes = chunks.flatten := by
  rw [popError_eq_ok_iff, errors_join_eq_nil_iff hrun]
  constructor
  · rintro ⟨hok, rfl⟩
    have hvalue : ∀ outcome ∈ outcomes, ∃ chunk, outcome = .ok chunk := fun outcome houtcome =>
      (hreturns outcome houtcome).resolve_right fun ⟨e, he⟩ => hok outcome houtcome e he
    obtain ⟨chunks, hall⟩ := Except.exists_forall₂ hvalue
    exact ⟨chunks, hall, by rw [chunks_join_eq hrun hlen hall]⟩
  · rintro ⟨chunks, hall, rfl⟩
    refine ⟨fun outcome houtcome e he => ?_, by rw [chunks_join_eq hrun hlen hall]⟩
    obtain ⟨chunk, -, hchunk⟩ := Except.exists_of_mem_forall₂ hall.flip houtcome
    rw [he] at hchunk
    cases hchunk

end Join

/-! ### The call -/

section Runs

variable {C P : Type} {b : Build} {A : Ark} {S : CellScheme C P} {blockDims : BlockDimensions} {cells : List Cell}

/-- The limits of a call: the dimensions fit 16 bits, also extended, there is a domain for them, and
room for the proofs. -/
structure ProofsFit (A : Ark) (blockDims : BlockDimensions) (cells : List Cell) : Prop where
  rows : 0 < blockDims.rows.toNat ∧ blockDims.rows.toNat * 2 < 2 ^ 16
  cols : 0 < blockDims.cols.toNat ∧ blockDims.cols.toNat < 2 ^ 16
  domain : (A.newDomain blockDims.cols.toNat).isSome
  room : sproofSize * cells.length < 2 ^ 63

theorem resultLen_lt_iff : resultLen cells < 2 ^ 63 ↔ sproofSize * cells.length < 2 ^ 63 := by
  have hlimit : 2 ^ 63 ≤ usizeLimit - 1 := by decide
  rw [resultLen, saturatingMul, min_lt_iff]
  exact or_iff_left (not_lt.mpr hlimit)

/-- What is made before the cells are looked at. -/
theorem proofSetup_eq_ok_iff {dims extDims : Dimensions} {domain : EvaluationDomain} :
    proofSetup A blockDims cells = .ok (dims, extDims, domain) ↔
      (dims.height = blockDims.rows.toNat ∧ dims.width = blockDims.cols.toNat) ∧
        (extDims.height = blockDims.rows.toNat * 2 ∧ extDims.width = blockDims.cols.toNat) ∧
          A.newDomain blockDims.cols.toNat = some domain ∧ sproofSize * cells.length < 2 ^ 63 := by
  simp only [proofSetup, makeDims, allocateZeroed, Except.bind_eq_ok, Run.okOr_eq_ok, Run.assert_eq_ok,
    decide_eq_true_eq, resultLen_lt_iff, Except.pure_eq_ok, Except.ok.injEq, Prod.mk.injEq]
  constructor
  · rintro ⟨dims, hdims, extDims, hextDims, domain, hdomain, -, hroom, rfl, rfl, rfl⟩
    obtain ⟨hrows, hcols⟩ := Dimensions.newFrom_eq_some.mp hdims
    obtain ⟨hextRows, hextCols⟩ := (Dimensions.extend_eq_some dims).mp hextDims
    refine ⟨⟨hrows, hcols⟩, ⟨?_, ?_⟩, hcols ▸ hdomain, hroom⟩
    · exact hextRows.trans (congrArg (· * 2) hrows)
    · exact (hextCols.trans (Nat.mul_one _)).trans hcols
  · rintro ⟨⟨hrows, hcols⟩, ⟨hextRows, hextCols⟩, hdomain, hroom⟩
    refine ⟨dims, Dimensions.newFrom_eq_some.mpr ⟨hrows, hcols⟩, extDims, ?_, domain, ?_, (), hroom, rfl, rfl, rfl⟩
    · refine (Dimensions.extend_eq_some dims).mpr ⟨?_, ?_⟩
      · exact hextRows.trans (congrArg (· * 2) hrows.symm)
      · exact (hextCols.trans hcols.symm).trans (Nat.mul_one _).symm
    · rw [hcols]
      exact hdomain

theorem exists_proofSetup_iff : (∃ context, proofSetup A blockDims cells = .ok context) ↔ ProofsFit A blockDims cells := by
  constructor
  · rintro ⟨⟨dims, extDims, domain⟩, h⟩
    obtain ⟨⟨hrows, hcols⟩, ⟨hextRows, -⟩, hdomain, hroom⟩ := proofSetup_eq_ok_iff.mp h
    exact ⟨⟨hrows ▸ dims.height_pos, hextRows ▸ extDims.rows.property.2⟩, ⟨hcols ▸ dims.width_pos,
      hcols ▸ dims.cols.property.2⟩, Option.isSome_of_eq_some hdomain, hroom⟩
  · rintro ⟨⟨hrows, hextRows⟩, hcols, hdomain, hroom⟩
    obtain ⟨domain, hdomain⟩ := Option.isSome_iff_exists.mp hdomain
    refine ⟨⟨⟨⟨blockDims.rows.toNat, hrows, by omega⟩, ⟨blockDims.cols.toNat, hcols⟩⟩,
      ⟨⟨blockDims.rows.toNat * 2, by omega, hextRows⟩, ⟨blockDims.cols.toNat, hcols⟩⟩, domain⟩, ?_⟩
    exact proofSetup_eq_ok_iff.mpr ⟨⟨rfl, rfl⟩, ⟨rfl, rfl⟩, hdomain, hroom⟩

/-- There is a closure for each cell, with a chunk of zeros. -/
theorem closures_eq {nrows ncols : ℕ} {extDataMatrix : DMatrix ArkScalar nrows ncols} {dims extDims : Dimensions}
    {domain : EvaluationDomain} (hroom : sproofSize * cells.length < 2 ^ 63) :
    let outcomes := cells.map (cellProof b A S blockDims extDataMatrix dims extDims domain)
    closures b A S blockDims extDataMatrix cells dims extDims domain = (List.range outcomes.length).zip outcomes ∧
      startProofs cells = ⟨[], List.replicate outcomes.length (List.replicate sproofSize 0)⟩ := by
  have hlimit : 2 ^ 63 ≤ usizeLimit - 1 := by decide
  have hlen : resultLen cells = cells.length * sproofSize :=
    (Nat.min_eq_left (hroom.le.trans hlimit)).trans (Nat.mul_comm ..)
  have hpos : 0 < sproofSize := by decide
  refine ⟨?_, ?_⟩
  · rw [closures, hlen, Nat.mul_div_cancel _ hpos, List.length_map]
  · rw [startProofs, hlen, ← List.flatten_replicate_replicate, List.length_map, chunksExact_flatten hpos]
    intro chunk hchunk
    rw [List.eq_of_mem_replicate hchunk, List.length_replicate]

/-- The outcomes of the closures. -/
theorem mem_zip_range_iff {α : Type} {xs : List α} {x : α} :
    x ∈ xs ↔ ∃ closure ∈ (List.range xs.length).zip xs, closure.2 = x := by
  have hsnd : ((List.range xs.length).zip xs).map Prod.snd = xs := List.map_snd_zip (by rw [List.length_range])
  rw [← List.mem_map, hsnd]

section Shape

variable {extDataMatrix : DMatrix ArkScalar (blockDims.rows.toNat * 2) blockDims.cols.toNat}

/-- The chunk of a cell. -/
def IsOpening (A : Ark) (S : CellScheme C P)
    (extDataMatrix : DMatrix ArkScalar (blockDims.rows.toNat * 2) blockDims.cols.toNat) (cell : Cell)
    (chunk : List UInt8) : Prop :=
  ∃ proof value, openCell A S extDataMatrix cell = some (proof, value) ∧ chunk = proof.val ++ value.val

theorem IsOpening.length_eq {cell : Cell} {chunk : List UInt8} (h : IsOpening A S extDataMatrix cell chunk) :
    chunk.length = sproofSize := by
  obtain ⟨proof, value, -, rfl⟩ := h
  rw [List.length_append, proof.property, value.property]
  rfl

/-- The closures, by what they compute. -/
theorem cellProof_eq_ok_of_setup {dims extDims : Dimensions} {domain : EvaluationDomain}
    (hsetup : proofSetup A blockDims cells = .ok (dims, extDims, domain)) {cell : Cell} {chunk : List UInt8} :
    cellProof b A S blockDims extDataMatrix dims extDims domain cell = .ok chunk ↔
      (b = .wrapping ∨ blockDims.cols.toNat = nextPowerOfTwo blockDims.cols.toNat) ∧
        IsOpening A S extDataMatrix cell chunk := by
  obtain ⟨⟨-, hcols⟩, ⟨hextRows, hextCols⟩, hdomain, -⟩ := proofSetup_eq_ok_iff.mp hsetup
  exact cellProof_eq_ok_iff hextRows hextCols rfl hcols hdomain

/-- **What a run returns**, in whatever order: the chunks of all cells, if they can be opened. -/
theorem BuildProofRun.eq_ok_iff {result : Run KateError (List UInt8)}
    (hrun : BuildProofRun b A S blockDims extDataMatrix cells result) {bytes : List UInt8} :
    result = .ok bytes ↔ ProofsFit A blockDims cells ∧
      (cells = [] ∨ b = .wrapping ∨ blockDims.cols.toNat = nextPowerOfTwo blockDims.cols.toNat) ∧
      ∃ chunks, List.Forall₂ (IsOpening A S extDataMatrix) cells chunks ∧ bytes = chunks.flatten := by
  cases hrun with
  | stop hsetup =>
    refine iff_of_false (fun h => by cases h) ?_
    rintro ⟨hfit, -⟩
    obtain ⟨context, hcontext⟩ := exists_proofSetup_iff.mpr hfit
    rw [hcontext] at hsetup
    cases hsetup
  | @panic dims extDims domain closure _ hsetup hclosure _ hstop =>
    refine iff_of_false (fun h => by cases h) ?_
    rintro ⟨-, hassert, chunks, hall, -⟩
    obtain ⟨-, -, -, hroom⟩ := proofSetup_eq_ok_iff.mp hsetup
    rw [(closures_eq hroom).1] at hclosure
    obtain ⟨cell, hcell, hproof⟩ := List.mem_map.mp (mem_zip_range_iff.mpr ⟨closure, hclosure, rfl⟩)
    obtain ⟨chunk, -, hopen⟩ := Except.exists_of_mem_forall₂ hall.flip hcell
    have hok := (cellProof_eq_ok_of_setup hsetup).mpr ⟨hassert.resolve_left (List.ne_nil_of_mem hcell), hopen⟩
    rw [← hproof, hok] at hstop
    exact hstop (Run.returns_ok chunk)
  | @join dims extDims domain steps hsetup hreturns hsteps =>
    obtain ⟨-, -, -, hroom⟩ := proofSetup_eq_ok_iff.mp hsetup
    rw [(closures_eq hroom).1] at hreturns hsteps
    rw [(closures_eq hroom).2, popError_join_eq_ok_iff hsteps]
    · simp only [List.forall₂_map_left_iff, cellProof_eq_ok_of_setup hsetup]
      constructor
      · rintro ⟨chunks, hall, rfl⟩
        refine ⟨exists_proofSetup_iff.mp ⟨_, hsetup⟩, ?_, chunks, hall.imp fun _ _ h => h.2, rfl⟩
        cases hall with
        | nil => exact Or.inl rfl
        | cons hhead _ => exact Or.inr hhead.1
      · rintro ⟨-, hassert, chunks, hall, rfl⟩
        refine ⟨chunks, ?_, rfl⟩
        rcases hassert with rfl | hassert
        · cases hall
          exact List.Forall₂.nil
        · exact hall.imp fun _ _ h => ⟨hassert, h⟩
    · intro outcome houtcome
      obtain ⟨closure, hclosure, rfl⟩ := mem_zip_range_iff.mp houtcome
      exact hreturns closure hclosure
    · intro bytes hbytes
      obtain ⟨cell, -, hproof⟩ := List.mem_map.mp hbytes
      exact ((cellProof_eq_ok_of_setup hsetup).mp hproof).2.length_eq

/-- **No proof is lost, and no error**: in whatever order the closures run, bytes are returned exactly
when the call is within its limits and every cell is one of the matrix and can be opened, and then
they are the proof and the value of each cell in turn. -/
theorem buildProofRun_returns_iff {result : Run KateError (List UInt8)}
    (hrun : BuildProofRun b A S blockDims extDataMatrix cells result) :
    ((∃ bytes, result = .ok bytes) ↔ ProofsFit A blockDims cells ∧
      (cells = [] ∨ b = .wrapping ∨ blockDims.cols.toNat = nextPowerOfTwo blockDims.cols.toNat) ∧
      ∀ cell ∈ cells, (openCell A S extDataMatrix cell).isSome) ∧
    ∀ bytes, result = .ok bytes → bytes.length = sproofSize * cells.length ∧
      ∀ (k : ℕ) cell, cells[k]? = some cell → ∃ proof value, openCell A S extDataMatrix cell = some (proof, value) ∧
        (chunksExact sproofSize bytes)[k]? = some (proof.val ++ value.val) := by
  simp only [hrun.eq_ok_iff]
  constructor
  · constructor
    · rintro ⟨bytes, hfit, hassert, chunks, hall, -⟩
      refine ⟨hfit, hassert, fun cell hcell => ?_⟩
      obtain ⟨chunk, -, proof, value, hopen, -⟩ := Except.exists_of_mem_forall₂ hall.flip hcell
      exact Option.isSome_of_eq_some hopen
    · rintro ⟨hfit, hassert, hopen⟩
      have hopening : ∀ cell ∈ cells, ∃ chunk, IsOpening A S extDataMatrix cell chunk := by
        intro cell hcell
        obtain ⟨⟨proof, value⟩, h⟩ := Option.isSome_iff_exists.mp (hopen cell hcell)
        exact ⟨_, proof, value, h, rfl⟩
      obtain ⟨chunks, hall⟩ := Except.exists_forall₂ hopening
      exact ⟨_, hfit, hassert, chunks, hall, rfl⟩
  · rintro bytes ⟨-, -, chunks, hall, rfl⟩
    have hlength : ∀ chunk ∈ chunks, chunk.length = sproofSize := by
      intro chunk hchunk
      obtain ⟨cell, -, hopen⟩ := Except.exists_of_mem_forall₂ hall hchunk
      exact hopen.length_eq
    rw [length_flatten_uniform hlength, ← hall.length_eq, Nat.mul_comm, chunksExact_flatten (by decide) hlength]
    refine ⟨rfl, fun k cell hcell => ?_⟩
    obtain ⟨chunk, hchunk, proof, value, hopen, rfl⟩ := Except.exists_of_getElem?_forall₂ hall.flip hcell
    exact ⟨proof, value, hopen, hchunk⟩

end Shape

end Runs

/-! ### One after another -/

/-- The error of a call that returns one. -/
def errorOf {ε α : Type} : Run ε α → Option ε
  | .error (.err e) => some e
  | _ => none

theorem runAll_ok_cons {ε α : Type} (a : α) (rs : List (Run ε α)) : runAll (.ok a :: rs) =
    match runAll rs with
    | .ok as => .ok (a :: as)
    | .error s => .error s := by
  cases h : runAll rs <;> simp only [runAll, h]

theorem runAll_fail_cons {ε α : Type} (e : ε) (rs : List (Run ε α)) : runAll (Run.fail e :: rs) =
    match runAll rs with
    | .ok _ => Run.fail e
    | .error s => .error s := by
  cases h : runAll rs <;> simp only [Run.fail, runAll, h]

/-- Of calls that all return, there come their values, or the last error. -/
theorem runAll_of_returns {ε α : Type} {rs : List (Run ε α)} (h : ∀ r ∈ rs, r.Returns) :
    runAll rs = match (rs.filterMap errorOf).getLast? with
      | some e => Run.fail e
      | none => .ok (rs.filterMap Except.toOption) := by
  induction rs with
  | nil => rfl
  | cons r rs ih =>
    rw [List.forall_mem_cons] at h
    obtain ⟨⟨a, rfl⟩ | ⟨e, rfl⟩, hrest⟩ := h
    · rw [List.filterMap_cons_none rfl, runAll_ok_cons, ih hrest]
      cases (rs.filterMap errorOf).getLast? with
      | some e => rfl
      | none => rfl
    · rw [@List.filterMap_cons_some _ _ errorOf (Run.fail e) rs e rfl, List.getLast?_cons, runAll_fail_cons,
        ih hrest]
      cases (rs.filterMap errorOf).getLast? with
      | some e' => rfl
      | none => rfl

/-- When one of the calls does not return, there comes how one of them stops. -/
theorem runAll_of_not_returns {ε α : Type} {rs : List (Run ε α)} (h : ∃ r ∈ rs, ¬ r.Returns) :
    ∃ r ∈ rs, ¬ r.Returns ∧ ∃ s, r = .error s ∧ runAll rs = .error s := by
  induction rs with
  | nil =>
    obtain ⟨r, hr, -⟩ := h
    cases hr
  | cons r rs ih =>
    by_cases hr : r.Returns
    · have hrest : ∃ r ∈ rs, ¬ r.Returns := by
        obtain ⟨r', hr', hstop⟩ := h
        obtain rfl | hr' := List.mem_cons.mp hr'
        · exact absurd hr hstop
        · exact ⟨r', hr', hstop⟩
      obtain ⟨r', hr', hstop, s, hs, hall⟩ := ih hrest
      refine ⟨r', List.mem_cons_of_mem _ hr', hstop, s, hs, ?_⟩
      obtain ⟨a, rfl⟩ | ⟨e, rfl⟩ := hr
      · rw [runAll_ok_cons, hall]
      · rw [runAll_fail_cons, hall]
    · refine ⟨r, List.mem_cons_self .., hr, ?_⟩
      match r with
      | .ok a => exact absurd (Run.returns_ok a) hr
      | .error (.err e) => exact absurd (Run.returns_fail e) hr
      | .error .panic => exact ⟨_, rfl, rfl⟩
      | .error .diverge => exact ⟨_, rfl, rfl⟩

/-- The errors of closures that run one after another. -/
theorem filterMap_flatten_proofSteps (outcomes : List (Run KateError (List UInt8))) (ks : List ℕ)
    (h : ks.length = outcomes.length) :
    ((ks.zip outcomes).map fun closure => proofSteps closure.1 closure.2).flatten.filterMap ProofStep.error? =
      outcomes.filterMap errorOf := by
  induction outcomes generalizing ks with
  | nil => rw [List.zip_nil_right]; rfl
  | cons outcome outcomes ih =>
    obtain ⟨k, ks, rfl⟩ := List.exists_cons_of_length_eq_add_one h
    rw [List.zip_cons_cons, List.map_cons, List.flatten_cons, List.filterMap_append,
      ih ks (Nat.succ.inj h)]
    match outcome with
    | .ok bytes => rfl
    | .error (.err e) => rfl
    | .error .panic => rfl
    | .error .diverge => rfl

/-- Then the last error is popped, or the bytes are those of all closures. -/
theorem popError_in_turn {outcomes : List (Run KateError (List UInt8))} (hreturns : ∀ outcome ∈ outcomes, outcome.Returns)
    (hlen : ∀ bytes, .ok bytes ∈ outcomes → bytes.length = sproofSize) :
    popError ((((List.range outcomes.length).zip outcomes).map fun closure =>
        proofSteps closure.1 closure.2).flatten.foldl ProofStep.apply
      ⟨[], List.replicate outcomes.length (List.replicate sproofSize 0)⟩) =
      (do
        let resultBytes ← runAll outcomes
        return resultBytes.flatten) := by
  cases hall : runAll outcomes with
  | ok chunks =>
    exact (popError_join_eq_ok_iff (interleaving_flatten _) hreturns hlen).mpr ⟨chunks, runAll_eq_ok_iff.mp hall, rfl⟩
  | error s =>
    rw [runAll_of_returns hreturns] at hall
    rw [popError, errors_foldl_apply, filterMap_flatten_proofSteps _ _ List.length_range, List.nil_append,
      Except.error_bind]
    cases hlast : (outcomes.filterMap errorOf).getLast? with
    | some e =>
      rw [hlast] at hall
      exact congrArg _ (Except.error.inj hall)
    | none =>
      rw [hlast] at hall
      cases hall

section InTurn

variable {C P : Type} {nrows ncols : ℕ} {b : Build} {A : Ark} {S : CellScheme C P} {blockDims : BlockDimensions}
  {extDataMatrix : DMatrix ArkScalar nrows ncols} {cells : List Cell}

/-- The call is what is made before it looks at the cells, and then all its closures. -/
theorem buildProof_eq_bind (hroom : sproofSize * cells.length < 2 ^ 63) :
    buildProof b A S blockDims extDataMatrix cells = (do
      let (dims, extDims, domain) ← proofSetup A blockDims cells
      let resultBytes ← runAll (cells.map (cellProof b A S blockDims extDataMatrix dims extDims domain))
      return resultBytes.flatten) := by
  have hallocate : (allocateZeroed (resultLen cells) : Run KateError Unit) = .ok () := by
    rw [allocateZeroed, Run.assert_eq_ok, decide_eq_true_eq]
    exact resultLen_lt_iff.mpr hroom
  simp only [buildProof, proofSetup, bind_assoc, hallocate, Except.ok_bind, Except.pure_eq_ok]

/-- **The closures one after another** are one of the runs. -/
theorem buildProofRun_buildProof (hroom : sproofSize * cells.length < 2 ^ 63) :
    BuildProofRun b A S blockDims extDataMatrix cells (buildProof b A S blockDims extDataMatrix cells) := by
  rw [buildProof_eq_bind hroom]
  cases hsetup : proofSetup A blockDims cells with
  | error s => exact BuildProofRun.stop hsetup
  | ok context =>
    obtain ⟨dims, extDims, domain⟩ := context
    obtain ⟨hclosures, hstart⟩ := @closures_eq _ _ b A S blockDims _ _ _ extDataMatrix dims extDims domain hroom
    simp only [Except.ok_bind]
    set outcomes := cells.map (cellProof b A S blockDims extDataMatrix dims extDims domain) with houtcomes
    by_cases hall : ∀ outcome ∈ outcomes, outcome.Returns
    · have hjoin := @BuildProofRun.join _ _ _ _ b A S blockDims extDataMatrix cells _ _ _ _ hsetup (by
        intro closure hclosure
        rw [hclosures] at hclosure
        exact hall _ (mem_zip_range_iff.mpr ⟨closure, hclosure, rfl⟩)) (interleaving_flatten _)
      rwa [hclosures, hstart, popError_in_turn hall] at hjoin
      intro bytes hbytes
      obtain ⟨cell, -, hproof⟩ := List.mem_map.mp hbytes
      exact length_of_cellProof hproof
    · push Not at hall
      obtain ⟨outcome, houtcome, hstop, s, hs, hrun⟩ := runAll_of_not_returns hall
      obtain ⟨closure, hclosure, rfl⟩ := mem_zip_range_iff.mp houtcome
      rw [hrun]
      exact BuildProofRun.panic hsetup (hclosures ▸ hclosure) hs hstop

end InTurn

/-! ### Blocks of zeros -/

/-- A matrix of zeros. -/
def zeroMatrix (nrows ncols : ℕ) : DMatrix ArkScalar nrows ncols :=
  ⟨List.replicate ncols (List.replicate nrows 0), List.length_replicate, fun column hcolumn => by
    rw [List.eq_of_mem_replicate hcolumn, List.length_replicate]⟩

/-- The dimensions of one row of three columns. -/
def threeColumns : BlockDimensions := ⟨1, 3, 32, 96, by decide, by decide⟩

/-- The dimensions of one column of 40000 rows. -/
def tallColumn : BlockDimensions := ⟨40000, 1, 32, 1280000, by decide, by decide⟩

/-- Two cells of the extension of two applications. -/
theorem buildProofRun_returns_iff_two :
    ∃ bytes, buildProof .checked bls12381 (CellScheme.atPoint 5) twoAppsDims twoAppsExtended.evals [⟨1, 2⟩, ⟨2, 3⟩] =
        .ok bytes ∧
      bytes.length = 160 ∧ ∃ proof value,
        openCell bls12381 (CellScheme.atPoint 5) twoAppsExtended.evals ⟨2, 3⟩ = some (proof, value) ∧
        (chunksExact sproofSize bytes)[1]? = some (proof.val ++ value.val) := by
  have hdomain : (bls12381.newDomain twoAppsDims.cols.toNat).isSome :=
    Option.isSome_of_eq_some bls12381_newDomain_four
  obtain ⟨hreturns, hbytes⟩ := @buildProofRun_returns_iff _ _ .checked bls12381 (CellScheme.atPoint 5) twoAppsDims
    [⟨1, 2⟩, ⟨2, 3⟩] twoAppsExtended.evals _ (buildProofRun_buildProof (by decide))
  obtain ⟨bytes, hrun⟩ := hreturns.mpr
    ⟨⟨by decide, by decide, hdomain, by decide⟩, Or.inr (Or.inr (by decide)), isSome_openCell_two⟩
  obtain ⟨hlength, hcells⟩ := hbytes bytes hrun
  exact ⟨bytes, hrun, hlength, hcells 1 ⟨2, 3⟩ rfl⟩

/-- Two calls that return no bytes, though no cell fails: of a block whose extension is too tall, and
of one whose width is no power of two, where that is checked. -/
theorem buildProofRun_refused :
    BuildProofRun .checked bls12381 (CellScheme.atPoint 2) tallColumn (zeroMatrix 80000 1) []
      (Run.fail .invalidDimensionExtension) ∧
    BuildProofRun .checked bls12381 (CellScheme.atPoint 2) threeColumns (zeroMatrix 2 3) [⟨0, 0⟩] (.error .panic) ∧
    (openCell bls12381 (CellScheme.atPoint 2) (zeroMatrix 2 3) ⟨0, 0⟩).isSome := by
  have hpanic : buildProof .checked bls12381 (CellScheme.atPoint 2) threeColumns (zeroMatrix 2 3) [⟨0, 0⟩] =
      .error .panic := rfl
  exact ⟨BuildProofRun.stop rfl, hpanic ▸ buildProofRun_buildProof (by decide), rfl⟩

end AvailCore
