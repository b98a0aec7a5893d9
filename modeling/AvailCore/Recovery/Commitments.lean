import AvailCore.Foundation.Chunks
import AvailCore.Recovery.Data
import Mathlib.Data.List.ReduceOption

/-!
# Verification of rows against commitments

`kate/recovery/src/commitments.rs`. A light client has the commitments of a block's rows
from its header, and rows from its peers; `verify_equality` interpolates each row of an
application, commits to the polynomial and compares.

## The model

The commitment scheme is a third party's: `Committer` is what the code calls of it. Its
commitments are any bytes, not just 48 of them, so that a scheme can bind to every
polynomial of a domain (`BindsAt`), as the code trusts the real one to.

## What is proved

A row that verifies is known up to its resizing to the domain
(`verification_iff_resize`). So of the rows of the right length one verifies at most, but
so does the row that was committed to without zeros at its end, or with cells past it; a
verified row is complete exactly when none of these is supplied (`verified_row_iff`).

A row of the application that cannot be read fails the whole call
(`invalidRowsMissing_iff`); where there is none, each row has its own verdict.
-/

namespace AvailCore

open Chunks AvailCore.Fourier

/-- `commitments::Error` -/
inductive CommitmentsError where
  | sliceError
  | scalarDataError
  /-- Invalid scalar data length. -/
  | badScalarDataLen
  /-- Scalar data contains invalid character. -/
  | badScalarData
  | badLen
  | plonkError
  | badCommitmentsData
  | badRowsData
  /-- Integer conversion error. -/
  | intError
  | arkworksError
  deriving DecidableEq, Repr

/-- The calls to the commitment scheme. -/
structure Committer (G : Type) where
  /-- `prover_key.commit(polynomial)`, of the polynomial's coefficients. -/
  commit : List ArkScalar → Option G
  /-- `commitment.to_bytes()` -/
  toBytes : G → Option (List UInt8)

namespace Committer

variable {G : Type} (P : Committer G)

/-- The bytes of the commitment to a polynomial. -/
def commitBytes (polynomial : List ArkScalar) : Run CommitmentsError (List UInt8) := do
  let result ← Run.okOr .arkworksError (P.commit polynomial)
  Run.okOr .arkworksError (P.toBytes result)

/-- No two polynomials of `n` coefficients have the commitment `c`. -/
def BindsAt (n : ℕ) (c : List UInt8) : Prop :=
  ∀ p q : List ArkScalar, p.length = n → q.length = n → P.commitBytes p = .ok c → P.commitBytes q = .ok c → p = q

end Committer

/-! ### Rows of an application -/

/-- `app_specific_rows` -/
def appSpecificRows {ε : Type} (b : Build) (index : DataLookup) (dimensions : Dimensions) (appId : AppId) :
    Run ε (List ℕ) :=
  match index.rangeOf appId with
  | none => return []
  | some range => do
    let rows ← dimensions.extendedDataRows b range
    return rows.getD []

/-- The rows of an application are in order, whatever its range. -/
theorem pairwise_appSpecificRows {ε : Type} {b : Build} {index : DataLookup} {dimensions : Dimensions} {appId : AppId}
    {appRows : List ℕ} (h : (appSpecificRows b index dimensions appId : Run ε _) = .ok appRows) :
    appRows.Pairwise (· < ·) := by
  unfold appSpecificRows at h
  cases hrange : index.rangeOf appId with
  | none =>
    rw [hrange] at h
    cases h
    exact List.Pairwise.nil
  | some range =>
    simp only [hrange, Except.bind_eq_ok, Except.pure_eq_ok, Except.ok.injEq, Dimensions.extendedDataRows] at h
    obtain ⟨rows, hrows, rfl⟩ := h
    split_ifs at hrows with hout
    · cases hrows
      exact List.Pairwise.nil
    · simp only [Except.bind_eq_ok, Except.ok.injEq] at hrows
      obtain ⟨first, -, last, -, rfl⟩ := hrows
      exact Dimensions.pairwise_stepRows _ _

/-! ### The scalars of a row -/

/-- `try_into_scalar` -/
def tryIntoScalar (A : Ark) (chunk : List UInt8) : Run CommitmentsError ArkScalar :=
  if h : chunk.length = chunkSize then Run.okOr .arkworksError (A.fromBytes ⟨chunk, h⟩) else Run.fail .sliceError

/-- `try_into_scalars` -/
def tryIntoScalars (A : Ark) (data : List UInt8) : Run CommitmentsError (List ArkScalar) := do
  Run.ensure (remainder chunkSize data).isEmpty .badLen
  (chunksExact chunkSize data).mapM (tryIntoScalar A)

theorem tryIntoScalar_eq_ok {A : Ark} {chunk : List UInt8} {s : ArkScalar} :
    tryIntoScalar A chunk = .ok s ↔ ∃ h : chunk.length = chunkSize, A.fromBytes ⟨chunk, h⟩ = some s := by
  unfold tryIntoScalar
  by_cases h : chunk.length = chunkSize
  · rw [dif_pos h, Run.okOr_eq_ok]
    exact ⟨fun hs => ⟨h, hs⟩, fun hs => hs.2⟩
  · rw [dif_neg h]
    constructor
    · intro hs
      cases hs
    · intro hs
      exact absurd hs.1 h

/-- Bytes that are read are the chunks of their scalars, one after another. -/
theorem tryIntoScalars_eq_ok {A : Ark} {data : List UInt8} {scalars : List ArkScalar}
    (h : tryIntoScalars A data = .ok scalars) :
    data = (chunksExact chunkSize data).flatten ∧
      List.Forall₂ (fun chunk s => tryIntoScalar A chunk = .ok s) (chunksExact chunkSize data) scalars := by
  simp only [tryIntoScalars, Except.bind_eq_ok, Run.ensure_eq_ok, List.isEmpty_iff, Except.mapM_ok_iff] at h
  obtain ⟨-, hrem, hchunks⟩ := h
  have hjoin := flatten_chunksExact_append_remainder chunkSize_pos data
  rw [hrem, List.append_nil] at hjoin
  exact ⟨hjoin.symm, hchunks⟩

theorem length_of_tryIntoScalars {A : Ark} {data : List UInt8} {scalars : List ArkScalar}
    (h : tryIntoScalars A data = .ok scalars) : data.length = chunkSize * scalars.length := by
  obtain ⟨hjoin, hchunks⟩ := tryIntoScalars_eq_ok h
  have hlen := length_flatten_uniform fun c hc => @length_of_mem_chunksExact _ chunkSize data c hc
  rw [← hjoin, hchunks.length_eq] at hlen
  rw [hlen, Nat.mul_comm]

/-- Two rows with the same scalars are the same bytes. -/
theorem tryIntoScalars_inj {A : Ark} {data data' : List UInt8} {scalars : List ArkScalar}
    (h : tryIntoScalars A data = .ok scalars) (h' : tryIntoScalars A data' = .ok scalars) : data = data' := by
  obtain ⟨hjoin, hchunks⟩ := tryIntoScalars_eq_ok h
  obtain ⟨hjoin', hchunks'⟩ := tryIntoScalars_eq_ok h'
  have hunique : Relator.LeftUnique fun chunk s => tryIntoScalar A chunk = .ok s := by
    intro chunk chunk' s hs hs'
    obtain ⟨hlen, hread⟩ := tryIntoScalar_eq_ok.mp hs
    obtain ⟨hlen', hread'⟩ := tryIntoScalar_eq_ok.mp hs'
    exact congrArg Subtype.val (A.fromBytes_inj hread hread')
  rw [hjoin, hjoin', List.left_unique_forall₂' hunique hchunks hchunks']

/-! ### Verification -/

/-- `row_index_commitment_verification` -/
def rowIndexCommitmentVerification {G : Type} (A : Ark) (P : Committer G) (domain : EvaluationDomain)
    (commitment : List UInt8) (maybeRow : Option (List UInt8)) (index : ℕ) :
    Run CommitmentsError (Option ℕ) :=
  match maybeRow with
  | none => return none
  | some row => do
    let scalars ← tryIntoScalars A row
    let resultBytes ← P.commitBytes (A.ifft domain scalars)
    return if resultBytes = commitment then some index else none

/-- `verify_equality` -/
def verifyEquality {G : Type} (b : Build) (A : Ark) (P : Committer G) (commitments : List (List UInt8))
    (rows : List (Option (List UInt8))) (index : DataLookup) (dimensions : Dimensions) (appId : AppId) :
    Run CommitmentsError (List ℕ × List ℕ) := do
  let extRows := dimensions.extendedRows
  Run.ensure (commitments.length = extRows) .badCommitmentsData
  let appRows ← appSpecificRows b index dimensions appId
  if rows.length ≠ extRows then return ([], appRows)
  else do
    let domain ← Run.okOr .arkworksError (A.newDomain dimensions.width)
    let verified ← ((commitments.zip rows).zipIdx.filter fun e => appRows.contains e.2).mapM fun e =>
      rowIndexCommitmentVerification A P domain e.1.1 e.1.2 e.2
    let verified := verified.reduceOption
    return (verified, appRows.filter fun row => !verified.contains row)

/-- A row verifies when it is read as scalars, and their polynomial has the commitment. -/
theorem verification_eq_some_iff {G : Type} {A : Ark} {P : Committer G} {domain : EvaluationDomain}
    {commitment : List UInt8} {maybeRow : Option (List UInt8)} {index i : ℕ} :
    rowIndexCommitmentVerification A P domain commitment maybeRow index = .ok (some i) ↔
      i = index ∧ ∃ row scalars, maybeRow = some row ∧ tryIntoScalars A row = .ok scalars ∧
        P.commitBytes (A.ifft domain scalars) = .ok commitment := by
  cases maybeRow with
  | none => simp [rowIndexCommitmentVerification]
  | some row =>
    simp only [rowIndexCommitmentVerification, Except.bind_eq_ok, Except.pure_eq_ok, Except.ok.injEq,
      Option.some.injEq, exists_and_left, exists_eq_left']
    constructor
    · intro h
      obtain ⟨scalars, hscalars, bytes, hbytes, heq⟩ := h
      split_ifs at heq with hcommit
      cases heq
      exact ⟨rfl, scalars, hscalars, hcommit ▸ hbytes⟩
    · intro h
      obtain ⟨rfl, scalars, hscalars, hbytes⟩ := h
      exact ⟨scalars, hscalars, commitment, hbytes, if_pos rfl⟩

/-- A row that is read verifies when the polynomial of its scalars has the commitment. -/
theorem verification_iff_commit {G : Type} {A : Ark} {P : Committer G} {domain : EvaluationDomain}
    {commitment row : List UInt8} {index : ℕ} {scalars : List ArkScalar} (h : tryIntoScalars A row = .ok scalars) :
    rowIndexCommitmentVerification A P domain commitment (some row) index = .ok (some index) ↔
      P.commitBytes (A.ifft domain scalars) = .ok commitment := by
  rw [verification_eq_some_iff, and_iff_right rfl]
  constructor
  · intro hverifies
    obtain ⟨_, scalars', hrow, hscalars, hcommit⟩ := hverifies
    cases hrow
    rw [h] at hscalars
    cases hscalars
    exact hcommit
  · intro hcommit
    exact ⟨row, scalars, rfl, h, hcommit⟩

/-- **Rows verify together when their scalars, cut or filled up to the domain, are the same**, and
only then where the scheme binds. -/
theorem verification_iff_resize {G : Type} {A : Ark} {P : Committer G} {n : ℕ} {domain : EvaluationDomain}
    (hdomain : A.newDomain n = some domain) {commitment : List UInt8}
    (hbind : P.BindsAt domain.size commitment) {row : List UInt8} {index : ℕ} {scalars : List ArkScalar}
    (hscalars : tryIntoScalars A row = .ok scalars)
    (h : rowIndexCommitmentVerification A P domain commitment (some row) index = .ok (some index))
    {row' : List UInt8} {scalars' : List ArkScalar} (hscalars' : tryIntoScalars A row' = .ok scalars') :
    rowIndexCommitmentVerification A P domain commitment (some row') index = .ok (some index) ↔
      resizeTo 0 domain.size scalars' = resizeTo 0 domain.size scalars := by
  have T := A.isTransform hdomain
  rw [verification_iff_commit hscalars] at h
  rw [verification_iff_commit hscalars', ← T.ifft_eq_iff]
  constructor
  · intro h'
    exact hbind _ _ (T.length_ifft _) (T.length_ifft _) h' h
  · intro heq
    rw [heq, h]

/-- **What the call returns**: nothing is verified unless there is a row for each commitment. -/
theorem verifyEquality_eq_ok_iff {G : Type} {b : Build} {A : Ark} {P : Committer G}
    {commitments : List (List UInt8)} {rows : List (Option (List UInt8))} {index : DataLookup}
    {dimensions : Dimensions} {appId : AppId} {verified missing : List ℕ} :
    verifyEquality b A P commitments rows index dimensions appId = .ok (verified, missing) ↔
      commitments.length = dimensions.extendedRows ∧ ∃ appRows : List ℕ,
        (appSpecificRows b index dimensions appId : Run CommitmentsError _) = .ok appRows ∧
        missing = appRows.filter (fun row => !verified.contains row) ∧
        (rows.length ≠ dimensions.extendedRows ∧ verified = [] ∨
          rows.length = dimensions.extendedRows ∧ ∃ domain results,
            A.newDomain dimensions.width = some domain ∧
            ((commitments.zip rows).zipIdx.filter fun e => appRows.contains e.2).mapM (fun e =>
              rowIndexCommitmentVerification A P domain e.1.1 e.1.2 e.2) = .ok results ∧
            verified = results.reduceOption) := by
  simp only [verifyEquality, Except.bind_eq_ok, Run.ensure_eq_ok, decide_eq_true_eq]
  by_cases hrows : rows.length = dimensions.extendedRows
  · simp only [hrows, ne_eq, not_true_eq_false, if_false, Except.bind_eq_ok, Run.okOr_eq_ok,
      Except.pure_eq_ok, Except.ok.injEq, Prod.mk.injEq, false_and, true_and, false_or]
    constructor
    · intro h
      obtain ⟨-, hlen, appRows, happ, domain, hdomain, results, hresults, rfl, rfl⟩ := h
      exact ⟨hlen, appRows, happ, rfl, domain, results, hdomain, hresults, rfl⟩
    · intro h
      obtain ⟨hlen, appRows, happ, rfl, domain, results, hdomain, hresults, rfl⟩ := h
      exact ⟨(), hlen, appRows, happ, domain, hdomain, results, hresults, rfl, rfl⟩
  · simp only [hrows, ne_eq, not_false_eq_true, if_true, Except.pure_eq_ok, Except.ok.injEq, Prod.mk.injEq,
      true_and, false_and, or_false]
    constructor
    · intro h
      obtain ⟨-, hlen, appRows, happ, rfl, rfl⟩ := h
      exact ⟨hlen, appRows, happ, by simp, rfl⟩
    · intro h
      obtain ⟨hlen, appRows, happ, rfl, rfl⟩ := h
      exact ⟨(), hlen, appRows, happ, rfl, by simp⟩

/-- The rows that are verified, each with its commitment and its index. -/
theorem mem_appEntries {commitments : List (List UInt8)} {rows : List (Option (List UInt8))} {appRows : List ℕ}
    {commitment : List UInt8} {maybeRow : Option (List UInt8)} {i : ℕ} :
    ((commitment, maybeRow), i) ∈ ((commitments.zip rows).zipIdx.filter fun e => appRows.contains e.2) ↔
      commitments[i]? = some commitment ∧ rows[i]? = some maybeRow ∧ i ∈ appRows := by
  rw [List.mem_filter, List.mk_mem_zipIdx_iff_getElem?, List.getElem?_zip_eq_some, List.contains_iff_mem, and_assoc]

/-- The verdict on a row. -/
def RowVerifies {G : Type} (A : Ark) (P : Committer G) (domain : EvaluationDomain) (commitments : List (List UInt8))
    (rows : List (Option (List UInt8))) (i : ℕ) : Prop :=
  ∃ commitment row scalars, commitments[i]? = some commitment ∧ rows[i]? = some (some row) ∧
    tryIntoScalars A row = .ok scalars ∧ P.commitBytes (A.ifft domain scalars) = .ok commitment

/-- The indices that a run verifies are those of the rows that verify. -/
theorem mem_verified_iff {G : Type} {A : Ark} {P : Committer G} {domain : EvaluationDomain}
    {commitments : List (List UInt8)} {rows : List (Option (List UInt8))} {appRows : List ℕ}
    {results : List (Option ℕ)}
    (h : ((commitments.zip rows).zipIdx.filter fun e => appRows.contains e.2).mapM (fun e =>
      rowIndexCommitmentVerification A P domain e.1.1 e.1.2 e.2) = .ok results) {i : ℕ} :
    i ∈ results.reduceOption ↔ i ∈ appRows ∧ RowVerifies A P domain commitments rows i := by
  rw [List.reduceOption_mem_iff]
  constructor
  · intro hi
    obtain ⟨e, he, hverifies⟩ := Except.exists_of_mem_mapM h hi
    obtain ⟨⟨commitment, maybeRow⟩, j⟩ := e
    obtain ⟨hcommitment, hrow, hj⟩ := mem_appEntries.mp he
    obtain ⟨rfl, row, scalars, rfl, hscalars, hcommit⟩ := verification_eq_some_iff.mp hverifies
    exact ⟨hj, commitment, row, scalars, hcommitment, hrow, hscalars, hcommit⟩
  · intro hverdict
    obtain ⟨hi, commitment, row, scalars, hcommitment, hrow, hscalars, hcommit⟩ := hverdict
    obtain ⟨result, hmem, hresult⟩ := Except.exists_mem_of_mapM h (mem_appEntries.mpr ⟨hcommitment, hrow, hi⟩)
    dsimp only at hresult
    rw [verification_eq_some_iff.mpr ⟨rfl, row, scalars, rfl, hscalars, hcommit⟩, Except.ok.injEq] at hresult
    exact hresult ▸ hmem

/-- Results that are the values of their items, where they are there, are in the items' order. -/
theorem reduceOption_sublist_map {α : Type} {g : α → ℕ} {xs : List α} {results : List (Option ℕ)}
    (h : List.Forall₂ (fun x result => ∀ i, result = some i → i = g x) xs results) :
    results.reduceOption.Sublist (xs.map g) := by
  induction h with
  | nil => exact List.Sublist.slnil
  | @cons x result xs results hx _ ih =>
    cases result with
    | none => exact ih.cons (g x)
    | some i =>
      obtain rfl := hx i rfl
      exact ih.cons_cons (g x)

/-- The rows are verified in the order of their indices. -/
theorem pairwise_verified {G : Type} {A : Ark} {P : Committer G} {domain : EvaluationDomain}
    {commitments : List (List UInt8)} {rows : List (Option (List UInt8))} {appRows : List ℕ}
    {results : List (Option ℕ)}
    (h : ((commitments.zip rows).zipIdx.filter fun e => appRows.contains e.2).mapM (fun e =>
      rowIndexCommitmentVerification A P domain e.1.1 e.1.2 e.2) = .ok results) :
    results.reduceOption.Pairwise (· < ·) := by
  have hindex : List.Forall₂ (fun e result => ∀ i, result = some i → i = e.2)
      ((commitments.zip rows).zipIdx.filter fun e => appRows.contains e.2) results := by
    apply (Except.mapM_ok_iff.mp h).imp
    rintro e _ hverifies i rfl
    exact (verification_eq_some_iff.mp hverifies).1
  have hall : ((commitments.zip rows).zipIdx.map Prod.snd).Pairwise (· < ·) := by
    rw [List.zipIdx_map_snd]
    exact List.pairwise_lt_range'
  apply List.Pairwise.sublist _ hall
  exact (reduceOption_sublist_map hindex).trans (List.filter_sublist.map Prod.snd)

/-- The row of index `i` is complete, and the only one of its length that verifies. -/
def OnlyRow {G : Type} (A : Ark) (P : Committer G) (domain : EvaluationDomain) (commitments : List (List UInt8))
    (rows : List (Option (List UInt8))) (dimensions : Dimensions) (i : ℕ) : Prop :=
  ∃ bytes commitment, rows[i]? = some (some bytes) ∧ commitments[i]? = some commitment ∧
    bytes.length = dimensions.rowByteSize ∧ ∀ bytes', bytes'.length = dimensions.rowByteSize →
      rowIndexCommitmentVerification A P domain commitment (some bytes') i = .ok (some i) → bytes' = bytes

/-- A verified index has a commitment, and a row that verifies against it. -/
theorem exists_of_mem_verified {G : Type} {b : Build} {A : Ark} {P : Committer G} {commitments : List (List UInt8)}
    {rows : List (Option (List UInt8))} {index : DataLookup} {dimensions : Dimensions} {appId : AppId}
    {verified missing : List ℕ}
    (h : verifyEquality b A P commitments rows index dimensions appId = .ok (verified, missing)) {i : ℕ}
    (hi : i ∈ verified) : ∃ domain commitment row, A.newDomain dimensions.width = some domain ∧
      commitments[i]? = some commitment ∧ rows[i]? = some (some row) ∧
      rowIndexCommitmentVerification A P domain commitment (some row) i = .ok (some i) := by
  obtain ⟨-, appRows, -, -, hrun⟩ := verifyEquality_eq_ok_iff.mp h
  rcases hrun with hnone | hrun
  · rw [hnone.2] at hi
    cases hi
  · obtain ⟨-, domain, results, hdomain, hresults, rfl⟩ := hrun
    obtain ⟨-, commitment, row, scalars, hcommitment, hrow, hscalars, hcommit⟩ := (mem_verified_iff hresults).mp hi
    exact ⟨domain, commitment, row, hdomain, hcommitment, hrow, (verification_iff_commit hscalars).mpr hcommit⟩

/-- One of the rows of the application. -/
def AppRow (b : Build) (index : DataLookup) (d : Dimensions) (appId : AppId) (i : ℕ) : Prop :=
  ∃ appRows, (appSpecificRows b index d appId : Run CommitmentsError _) = .ok appRows ∧ i ∈ appRows

theorem appRow_iff {b : Build} {index : DataLookup} {d : Dimensions} {appId : AppId} {appRows : List ℕ}
    (h : (appSpecificRows b index d appId : Run CommitmentsError _) = .ok appRows) {i : ℕ} :
    AppRow b index d appId i ↔ i ∈ appRows := by
  unfold AppRow
  rw [h]
  simp

/-- A row of another length than the matrix's, made from the one that was committed to: with zeros left out at its
end, or with more scalars after it. -/
def StrayRow {G : Type} (A : Ark) (P : Committer G) (domain : EvaluationDomain) (width : ℕ)
    (commitment row : List UInt8) : Prop :=
  ∃ committed scalars, committed.length = domain.size ∧ P.commitBytes (A.ifft domain committed) = .ok commitment ∧
    tryIntoScalars A row = .ok scalars ∧ scalars.length ≠ width ∧
    ((∃ zeros, committed = scalars ++ List.replicate zeros 0) ∨ ∃ extra, scalars = committed ++ extra)

/-- The rows of another length that verify are those. -/
theorem strayRow_iff {G : Type} {A : Ark} {P : Committer G} {n : ℕ} {domain : EvaluationDomain}
    (hdomain : A.newDomain n = some domain) {width : ℕ} {commitment row : List UInt8} :
    StrayRow A P domain width commitment row ↔ ∃ scalars, tryIntoScalars A row = .ok scalars ∧
      P.commitBytes (A.ifft domain scalars) = .ok commitment ∧ scalars.length ≠ width := by
  have hsame : ∀ {scalars committed : List ArkScalar}, resizeTo 0 domain.size scalars = committed →
      A.ifft domain committed = A.ifft domain scalars := by
    rintro scalars _ rfl
    rw [(A.isTransform hdomain).ifft_eq_iff, resizeTo_of_length (length_resizeTo 0 domain.size scalars)]
  constructor
  · intro hstray
    obtain ⟨committed, scalars, hlen, hcommit, hscalars, hwidth, hends⟩ := hstray
    rw [hsame (resizeTo_eq_iff.mpr ⟨hlen, hends⟩)] at hcommit
    exact ⟨scalars, hscalars, hcommit, hwidth⟩
  · intro hrow
    obtain ⟨scalars, hscalars, hcommit, hwidth⟩ := hrow
    obtain ⟨hlen, hends⟩ := resizeTo_eq_iff.mp (@rfl _ (resizeTo (0 : ArkScalar) domain.size scalars))
    exact ⟨_, scalars, hlen, by rwa [hsame rfl], hscalars, hwidth, hends⟩

/-- A row of the right length is the only one that verifies. -/
theorem onlyRow_of_length {G : Type} {A : Ark} {P : Committer G} {commitments : List (List UInt8)}
    {rows : List (Option (List UInt8))} {dimensions : Dimensions} {domain : EvaluationDomain}
    (hdomain : A.newDomain dimensions.width = some domain) {i : ℕ} {commitment row : List UInt8}
    {scalars : List ArkScalar} (hcommitment : commitments[i]? = some commitment) (hrow : rows[i]? = some (some row))
    (hbind : P.BindsAt domain.size commitment) (hscalars : tryIntoScalars A row = .ok scalars)
    (hcommit : P.commitBytes (A.ifft domain scalars) = .ok commitment) (hwidth : scalars.length = dimensions.width) :
    OnlyRow A P domain commitments rows dimensions i := by
  have hlen : row.length = dimensions.rowByteSize := by
    rw [length_of_tryIntoScalars hscalars, hwidth]
    rfl
  refine ⟨row, commitment, hrow, hcommitment, hlen, fun row' hlen' hverifies' => ?_⟩
  have hverifies : rowIndexCommitmentVerification A P domain commitment (some row) i = .ok (some i) :=
    (verification_iff_commit hscalars).mpr hcommit
  obtain ⟨-, _, scalars', hsome', hscalars', -⟩ := verification_eq_some_iff.mp hverifies'
  cases hsome'
  have hresize := (verification_iff_resize hdomain hbind hscalars hverifies hscalars').mp hverifies'
  -- both rows fit in the domain, with as many scalars
  have hle := le_nextPowerOfTwo dimensions.width
  rw [← A.size_newDomain hdomain] at hle
  have hcount' : 32 * dimensions.width = 32 * scalars'.length :=
    hlen'.symm.trans (length_of_tryIntoScalars hscalars')
  have hsame : scalars' = scalars := resizeTo_inj (by omega) (by omega) hresize
  exact tryIntoScalars_inj (hsame ▸ hscalars') hscalars

/-- **The verified rows are the only ones of their length exactly when no row that is supplied for the application is
stray.** -/
theorem verified_row_iff {G : Type} (b : Build) (A : Ark) (P : Committer G) {commitments : List (List UInt8)}
    {rows : List (Option (List UInt8))} {index : DataLookup} {dimensions : Dimensions} {appId : AppId}
    {verified missing : List ℕ} {domain : EvaluationDomain}
    (h : verifyEquality b A P commitments rows index dimensions appId = .ok (verified, missing))
    (hdomain : A.newDomain dimensions.width = some domain)
    (hbind : ∀ c ∈ commitments, P.BindsAt domain.size c) :
    (∀ i ∈ verified, OnlyRow A P domain commitments rows dimensions i) ↔
      (rows.length = dimensions.extendedRows → ∀ i row commitment, AppRow b index dimensions appId i →
        rows[i]? = some (some row) → commitments[i]? = some commitment →
        ¬ StrayRow A P domain dimensions.width commitment row) := by
  obtain ⟨-, appRows, happ, -, hrun⟩ := verifyEquality_eq_ok_iff.mp h
  rcases hrun with ⟨hshort, rfl⟩ | ⟨hrows, domain', results, hdomain', hresults, rfl⟩
  · exact iff_of_true (fun i hi => by cases hi) fun hrows => absurd hrows hshort
  · rw [hdomain, Option.some.injEq] at hdomain'
    subst hdomain'
    simp only [mem_verified_iff hresults, strayRow_iff hdomain, appRow_iff happ]
    constructor
    · intro honly _ i row commitment hi hrow hcommitment hstray
      obtain ⟨scalars, hscalars, hcommit, hwidth⟩ := hstray
      obtain ⟨row', _, hrow', -, hlen, -⟩ := honly i ⟨hi, commitment, row, scalars, hcommitment, hrow, hscalars, hcommit⟩
      cases hrow.symm.trans hrow'
      have hcount : 32 * dimensions.width = 32 * scalars.length :=
        hlen.symm.trans (length_of_tryIntoScalars hscalars)
      omega
    · intro hstray i hverdict
      obtain ⟨hi, commitment, row, scalars, hcommitment, hrow, hscalars, hcommit⟩ := hverdict
      apply onlyRow_of_length hdomain hcommitment hrow (hbind _ (List.mem_of_getElem? hcommitment)) hscalars hcommit
      by_contra hwidth
      exact hstray hrows i row commitment hi hrow hcommitment ⟨scalars, hscalars, hcommit, hwidth⟩

/-- A scheme over the field itself, whose group has the field's order: the value at `t`. -/
def Committer.atPoint (t : ArkScalar) : Committer ArkScalar where
  commit polynomial := some (polynomial.foldr (fun c value => c + value * t) 0)
  toBytes value := (bls12381.toBytes value).map fun b => b.val ++ List.replicate 16 0

theorem commitBytes_atPoint (t a : ArkScalar) {chunk : Chunk} (h : bls12381.toBytes a = some chunk) :
    (Committer.atPoint t).commitBytes [a] = .ok (chunk.val ++ List.replicate 16 0) := by
  simp [Committer.commitBytes, Committer.atPoint, h]

/-- On a domain of one point the scheme binds. -/
theorem bindsAt_atPoint (t : ArkScalar) (c : List UInt8) : (Committer.atPoint t).BindsAt 1 c := by
  intro p q hp hq hpc hqc
  obtain ⟨a, rfl⟩ := List.length_eq_one_iff.mp hp
  obtain ⟨a', rfl⟩ := List.length_eq_one_iff.mp hq
  obtain ⟨chunk, ha⟩ := Option.isSome_iff_exists.mp (bls12381.toBytes_isSome a)
  obtain ⟨chunk', ha'⟩ := Option.isSome_iff_exists.mp (bls12381.toBytes_isSome a')
  rw [commitBytes_atPoint t a ha] at hpc
  rw [commitBytes_atPoint t a' ha', ← hpc, Except.ok.injEq] at hqc
  have hchunk : chunk = chunk' := Subtype.ext (List.append_cancel_right hqc).symm
  have hread := bls12381.fromBytes_toBytes ha
  rw [hchunk, bls12381.fromBytes_toBytes ha', Option.some.injEq] at hread
  rw [hread]

/-- The rows of a matrix of one cell, the first one starting with 7 and the other not supplied. -/
theorem verifyEquality_seven (t : ArkScalar) {row : List UInt8} {rest : List ArkScalar}
    (h : tryIntoScalars bls12381 row = .ok (7 :: rest)) :
    verifyEquality .checked bls12381 (Committer.atPoint t) [smallCommitment 7, smallCommitment 7] [some row, none]
      ⟨[(⟨0⟩, ⟨0, 1⟩)]⟩ ⟨⟨1, by decide⟩, ⟨1, by decide⟩⟩ ⟨0⟩ = .ok ([0], []) := by
  have hrow : rowIndexCommitmentVerification bls12381 (Committer.atPoint t) ⟨1, ArkScalar.rootOfUnity 0⟩
      (smallCommitment 7) (some row) 0 = .ok (some 0) := by
    rw [verification_iff_commit h, bls12381_ifft_one]
    exact commitBytes_atPoint t 7 rfl
  rw [verifyEquality_eq_ok_iff]
  exact ⟨rfl, [0], rfl, rfl, Or.inr ⟨rfl, _, [some 0], bls12381_newDomain_one,
    Except.mapM_ok_iff.mpr (.cons hrow .nil), rfl⟩⟩

theorem verified_row_iff_seven : OnlyRow bls12381 (Committer.atPoint 2) ⟨1, ArkScalar.rootOfUnity 0⟩
    [smallCommitment 7, smallCommitment 7] [some (smallChunk 7).val, none] ⟨⟨1, by decide⟩, ⟨1, by decide⟩⟩ 0 := by
  refine (verified_row_iff .checked bls12381 (Committer.atPoint 2) (@verifyEquality_seven 2 (smallChunk 7).val [] rfl)
    bls12381_newDomain_one (fun c _ => bindsAt_atPoint 2 c)).mpr ?_ 0 (by decide)
  intro _ i row commitment hi hrow _ hstray
  obtain rfl := List.mem_singleton.mp ((appRow_iff rfl).mp hi)
  cases hrow
  obtain ⟨scalars, hscalars, -, hwidth⟩ := (strayRow_iff bls12381_newDomain_one).mp hstray
  cases hscalars
  exact hwidth rfl

/-- A row with a cell too many is verified. -/
theorem verified_row_too_long :
    verifyEquality .checked bls12381 (Committer.atPoint 2) [smallCommitment 7, smallCommitment 7]
      [some ((smallChunk 7).val ++ (smallChunk 9).val), none] ⟨[(⟨0⟩, ⟨0, 1⟩)]⟩
      ⟨⟨1, by decide⟩, ⟨1, by decide⟩⟩ ⟨0⟩ = .ok ([0], []) ∧
    ¬ ∃ domain, OnlyRow bls12381 (Committer.atPoint 2) domain [smallCommitment 7, smallCommitment 7]
      [some ((smallChunk 7).val ++ (smallChunk 9).val), none] ⟨⟨1, by decide⟩, ⟨1, by decide⟩⟩ 0 := by
  refine ⟨verifyEquality_seven 2 rfl, ?_⟩
  intro honly
  obtain ⟨_, bytes, _, hbytes, -, hlen, -⟩ := honly
  cases hbytes
  exact absurd hlen (by decide)

/-! ### Malformed rows -/

/-- Every polynomial of `n` coefficients is committed to, and its commitment has bytes. -/
def Committer.CommitsAt {G : Type} (P : Committer G) (n : ℕ) : Prop :=
  ∀ polynomial : List ArkScalar, polynomial.length = n → ∃ bytes, P.commitBytes polynomial = .ok bytes

/-- The bytes of a row are whole chunks, and each of them is a scalar. -/
def WellFormedRow (A : Ark) (row : List UInt8) : Prop :=
  chunkSize ∣ row.length ∧ ∀ chunk : Chunk, chunk.val ∈ chunksExact chunkSize row → (A.fromBytes chunk).isSome

/-- The rows of the application are counted without overflow, or the build wraps: what the range of a
lookup starts with may be past the matrix it ends in. -/
def RowsFit (b : Build) (index : DataLookup) (d : Dimensions) (appId : AppId) : Prop :=
  b = .checked → ∀ range, index.rangeOf appId = some range → range.end_.toNat ≤ d.size → range.end_ ≠ 0 →
    range.start.toNat / d.width * extensionFactor < 2 ^ 32

theorem exists_tryIntoScalars_iff {A : Ark} {row : List UInt8} :
    (∃ scalars, tryIntoScalars A row = .ok scalars) ↔ WellFormedRow A row := by
  have hread : (∃ scalars, (chunksExact chunkSize row).mapM (tryIntoScalar A) = .ok scalars) ↔
      ∀ chunk : Chunk, chunk.val ∈ chunksExact chunkSize row → (A.fromBytes chunk).isSome := by
    constructor
    · intro h chunk hchunk
      obtain ⟨scalars, hscalars⟩ := h
      obtain ⟨s, -, hs⟩ := Except.exists_mem_of_mapM hscalars hchunk
      obtain ⟨hlen, hs⟩ := tryIntoScalar_eq_ok.mp hs
      exact Option.isSome_iff_exists.mpr ⟨s, hs⟩
    · intro h
      refine Except.exists_mapM fun chunk hchunk => ?_
      have hlen : chunk.length = chunkSize := length_of_mem_chunksExact hchunk
      obtain ⟨s, hs⟩ := Option.isSome_iff_exists.mp (h ⟨chunk, hlen⟩ hchunk)
      exact ⟨s, tryIntoScalar_eq_ok.mpr ⟨hlen, hs⟩⟩
  simp only [tryIntoScalars, Except.bind_eq_ok, Run.ensure_eq_ok, List.isEmpty_iff, remainder_eq_nil_iff]
  constructor
  · intro h
    obtain ⟨scalars, -, hdvd, hscalars⟩ := h
    exact ⟨hdvd, hread.mp ⟨scalars, hscalars⟩⟩
  · intro h
    obtain ⟨scalars, hscalars⟩ := hread.mpr h.2
    exact ⟨scalars, (), h.1, hscalars⟩

/-- The rows of the application are there when they are counted without overflow. -/
theorem exists_appSpecificRows_iff {ε : Type} {b : Build} {index : DataLookup} {d : Dimensions} {appId : AppId} :
    (∃ appRows, (appSpecificRows b index d appId : Run ε _) = .ok appRows) ↔ RowsFit b index d appId := by
  unfold appSpecificRows RowsFit
  cases hrange : index.rangeOf appId with
  | none => simp
  | some range =>
    simp only [Option.some.injEq, forall_eq']
    by_cases hout : d.size < range.end_.toNat ∨ range.end_ = 0
    · have hrows : (d.extendedDataRows b range : Run ε _) = .ok none := if_pos hout
      rw [hrows]
      refine iff_of_true ⟨[], rfl⟩ fun _ hle hne => ?_
      exact absurd hout (not_or.mpr ⟨not_lt.mpr hle, hne⟩)
    · obtain ⟨hle, hne⟩ := not_or.mp hout
      rw [not_lt] at hle
      have hcell : (range.end_ - 1).toNat < d.size := by
        rw [toNat_sub_one hne]
        exact (Nat.sub_one_lt_of_lt (toNat_pos_of_ne_zero hne)).trans_le hle
      obtain ⟨last, hlast⟩ := (@d.exists_extendedDataRow_iff ε b _).mpr fun _ => d.extendedRow_lt hcell
      have hfirst : (∃ appRows, (do
            let rows ← d.extendedDataRows b range
            return rows.getD [] : Run ε _) = .ok appRows) ↔ ∃ row, (d.extendedDataRow b range.start : Run ε _) = .ok row := by
        rw [Dimensions.extendedDataRows, if_neg hout, hlast]
        cases (d.extendedDataRow b range.start : Run ε _) <;> simp
      rw [hfirst, d.exists_extendedDataRow_iff]
      exact ⟨fun h hb _ _ => h hb, fun h hb => h hb hle hne⟩

/-- The rows of a range that ends inside the matrix, as they are counted. -/
theorem appSpecificRows_eq_ok_iff {ε : Type} {b : Build} {index : DataLookup} {d : Dimensions} {appId : AppId}
    {range : DataLookupRange} (hrange : index.rangeOf appId = some range) (hne : range.end_ ≠ 0)
    (hle : range.end_.toNat ≤ d.size) {rows : List ℕ} :
    (appSpecificRows b index d appId : Run ε _) = .ok rows ↔
      (b = .checked → range.start.toNat / d.width * extensionFactor < 2 ^ 32) ∧
      rows = Dimensions.stepRows (range.start.toNat / d.width * extensionFactor % 2 ^ 32)
        ((range.end_.toNat - 1) / d.width * extensionFactor) := by
  have hlast : (range.end_.toNat - 1) / d.width * extensionFactor < 2 ^ 32 := by
    have hpos := toNat_pos_of_ne_zero hne
    exact d.extendedRow_lt (by omega)
  have hvalue : ∀ rows', (appSpecificRows b index d appId : Run ε _) = .ok rows' →
      rows' = Dimensions.stepRows (range.start.toNat / d.width * extensionFactor % 2 ^ 32)
        ((range.end_.toNat - 1) / d.width * extensionFactor) := by
    intro rows' h
    have hin : ¬ (d.size < range.end_.toNat ∨ range.end_ = 0) := not_or.mpr ⟨not_lt.mpr hle, hne⟩
    simp only [appSpecificRows, hrange, Dimensions.extendedDataRows, if_neg hin, Except.bind_eq_ok,
      Except.pure_eq_ok, Except.ok.injEq] at h
    obtain ⟨_, ⟨first, hfirst, last, hlast', rfl⟩, rfl⟩ := h
    rw [Option.getD_some, d.toNat_of_extendedDataRow hfirst, d.toNat_of_extendedDataRow hlast', toNat_sub_one hne,
      Nat.mod_eq_of_lt hlast]
  have hexists : (∃ rows', (appSpecificRows b index d appId : Run ε _) = .ok rows') ↔
      (b = .checked → range.start.toNat / d.width * extensionFactor < 2 ^ 32) := by
    rw [exists_appSpecificRows_iff]
    constructor
    · intro h hb
      exact h hb range hrange hle hne
    · intro h hb range' hrange' _ _
      cases hrange.symm.trans hrange'
      exact h hb
  constructor
  · intro h
    exact ⟨hexists.mp ⟨rows, h⟩, hvalue rows h⟩
  · rintro ⟨hfits, rfl⟩
    obtain ⟨rows', h⟩ := hexists.mpr hfits
    rwa [hvalue rows' h] at h

/-- A row that is supplied is checked when it can be read. -/
theorem exists_verification_iff {G : Type} {A : Ark} {P : Committer G} {n : ℕ} {domain : EvaluationDomain}
    (hdomain : A.newDomain n = some domain) (hcommits : P.CommitsAt domain.size) {commitment : List UInt8}
    {maybeRow : Option (List UInt8)} {index : ℕ} :
    (∃ result, rowIndexCommitmentVerification A P domain commitment maybeRow index = .ok result) ↔
      ∀ row, maybeRow = some row → WellFormedRow A row := by
  cases maybeRow with
  | none =>
    refine iff_of_true ⟨none, rfl⟩ fun row hrow => ?_
    cases hrow
  | some row =>
    simp only [Option.some.injEq, forall_eq', ← exists_tryIntoScalars_iff, rowIndexCommitmentVerification,
      Except.bind_eq_ok, Except.pure_eq_ok, Except.ok.injEq]
    constructor
    · intro h
      obtain ⟨_, scalars, hscalars, -⟩ := h
      exact ⟨scalars, hscalars⟩
    · intro h
      obtain ⟨scalars, hscalars⟩ := h
      obtain ⟨bytes, hbytes⟩ := hcommits _ ((A.isTransform hdomain).length_ifft scalars)
      exact ⟨_, scalars, hscalars, bytes, hbytes, rfl⟩

/-- All rows are checked when those that are supplied can be read. -/
theorem exists_results_iff {G : Type} {A : Ark} {P : Committer G} {n : ℕ} {domain : EvaluationDomain}
    (hdomain : A.newDomain n = some domain) (hcommits : P.CommitsAt domain.size) {commitments : List (List UInt8)}
    {rows : List (Option (List UInt8))} (hlen : commitments.length = rows.length) {appRows : List ℕ} :
    (∃ results, ((commitments.zip rows).zipIdx.filter fun e => appRows.contains e.2).mapM (fun e =>
      rowIndexCommitmentVerification A P domain e.1.1 e.1.2 e.2) = .ok results) ↔
    ∀ i row, i ∈ appRows → rows[i]? = some (some row) → WellFormedRow A row := by
  constructor
  · intro h i row hi hrow
    obtain ⟨results, hresults⟩ := h
    have hlt : i < commitments.length := hlen ▸ (List.getElem?_eq_some_iff.mp hrow).1
    obtain ⟨result, -, hresult⟩ := Except.exists_mem_of_mapM hresults
      (mem_appEntries.mpr ⟨List.getElem?_eq_getElem hlt, hrow, hi⟩)
    exact (exists_verification_iff hdomain hcommits).mp ⟨result, hresult⟩ row rfl
  · intro h
    refine Except.exists_mapM fun e he => ?_
    obtain ⟨⟨commitment, maybeRow⟩, i⟩ := e
    obtain ⟨-, hrow, hi⟩ := mem_appEntries.mp he
    refine (exists_verification_iff hdomain hcommits).mpr fun row hsome => ?_
    exact h i row hi (hrow.trans (congrArg some hsome))

/-- The call returns, the rows that verify are verified whatever the others are, and those that are malformed
are missing. -/
def InvalidRowsMissing {G : Type} (b : Build) (A : Ark) (P : Committer G) (domain : EvaluationDomain)
    (commitments : List (List UInt8)) (rows : List (Option (List UInt8))) (index : DataLookup) (d : Dimensions)
    (appId : AppId) : Prop :=
  ∃ verified missing, verifyEquality b A P commitments rows index d appId = .ok (verified, missing) ∧
    (∀ i, i ∈ verified ↔ AppRow b index d appId i ∧ RowVerifies A P domain commitments rows i) ∧
    ∀ i row, AppRow b index d appId i → rows[i]? = some (some row) → ¬ WellFormedRow A row → i ∈ missing

/-- **One malformed row fails the call**: invalid rows are treated as missing only where there are none among
those of the application. -/
theorem invalidRowsMissing_iff {G : Type} (b : Build) {A : Ark} {P : Committer G} {d : Dimensions}
    {domain : EvaluationDomain} (hdomain : A.newDomain d.width = some domain) (hcommits : P.CommitsAt domain.size)
    {commitments : List (List UInt8)} (hcommitments : commitments.length = d.extendedRows)
    {rows : List (Option (List UInt8))} (hrows : rows.length = d.extendedRows) (index : DataLookup) (appId : AppId) :
    InvalidRowsMissing b A P domain commitments rows index d appId ↔
      RowsFit b index d appId ∧
        ∀ i row, AppRow b index d appId i → rows[i]? = some (some row) → WellFormedRow A row := by
  have hlen : commitments.length = rows.length := hcommitments.trans hrows.symm
  constructor
  · intro h
    obtain ⟨verified, missing, hrun, -, -⟩ := h
    obtain ⟨-, appRows, happ, -, hrun⟩ := verifyEquality_eq_ok_iff.mp hrun
    refine ⟨exists_appSpecificRows_iff.mp ⟨appRows, happ⟩, fun i row hi hrow => ?_⟩
    rcases hrun with hshort | hrun
    · exact absurd hrows hshort.1
    · obtain ⟨-, domain', results, hdomain', hresults, -⟩ := hrun
      rw [hdomain, Option.some.injEq] at hdomain'
      rw [← hdomain'] at hresults
      exact (exists_results_iff hdomain hcommits hlen).mp ⟨results, hresults⟩ i row ((appRow_iff happ).mp hi) hrow
  · intro h
    obtain ⟨hfit, hwell⟩ := h
    obtain ⟨appRows, happ⟩ := (@exists_appSpecificRows_iff CommitmentsError _ _ _ _).mpr hfit
    obtain ⟨results, hresults⟩ := (exists_results_iff hdomain hcommits hlen).mpr fun i row hi hrow =>
      hwell i row ((appRow_iff happ).mpr hi) hrow
    refine ⟨results.reduceOption, _, verifyEquality_eq_ok_iff.mpr ⟨hcommitments, appRows, happ, rfl,
      Or.inr ⟨hrows, domain, results, hdomain, hresults, rfl⟩⟩, ?_, ?_⟩
    · intro i
      rw [appRow_iff happ, mem_verified_iff hresults]
    · intro i row hi hrow hmalformed
      exact absurd (hwell i row hi hrow) hmalformed

/-! ### The verified and the missing rows -/

/-- Two lists of indices are a list's, each of them in one of the two, and in order. -/
structure SplitsRows (appRows verified missing : List ℕ) : Prop where
  verified_sorted : verified.Pairwise (· < ·)
  missing_sorted : missing.Pairwise (· < ·)
  disjoint : verified.Disjoint missing
  mem_iff : ∀ i, i ∈ appRows ↔ i ∈ verified ∨ i ∈ missing

/-- What is not among the first items is what is left. -/
theorem SplitsRows.of_retain {appRows verified : List ℕ} (happ : appRows.Pairwise (· < ·))
    (hverified : verified.Pairwise (· < ·)) (hsub : verified ⊆ appRows) :
    SplitsRows appRows verified (appRows.filter fun row => !verified.contains row) where
  verified_sorted := hverified
  missing_sorted := happ.filter _
  disjoint := by
    intro i hi hmissing
    have hnot := (List.mem_filter.mp hmissing).2
    simp [hi] at hnot
  mem_iff := by
    intro i
    rw [List.mem_filter]
    by_cases hi : i ∈ verified
    · simp [hi, hsub hi]
    · simp [hi]

/-- **Each row of the application is verified or missing**, and where there is a row for each commitment it is
verified exactly when it is supplied and its scalars have the commitment of its index. -/
theorem verifyEquality_splits {G : Type} {b : Build} {A : Ark} {P : Committer G} {commitments : List (List UInt8)}
    {rows : List (Option (List UInt8))} {index : DataLookup} {dimensions : Dimensions} {appId : AppId}
    {verified missing : List ℕ}
    (h : verifyEquality b A P commitments rows index dimensions appId = .ok (verified, missing)) :
    ∃ appRows, (appSpecificRows b index dimensions appId : Run CommitmentsError _) = .ok appRows ∧
      SplitsRows appRows verified missing ∧
      (rows.length = dimensions.extendedRows → ∃ domain, A.newDomain dimensions.width = some domain ∧
        ∀ i ∈ appRows, i ∈ verified ↔ RowVerifies A P domain commitments rows i) := by
  obtain ⟨-, appRows, happ, rfl, hrun⟩ := verifyEquality_eq_ok_iff.mp h
  have hsorted := pairwise_appSpecificRows happ
  refine ⟨appRows, happ, ?_⟩
  rcases hrun with ⟨hshort, rfl⟩ | ⟨hrows, domain, results, hdomain, hresults, rfl⟩
  · constructor
    · exact SplitsRows.of_retain hsorted List.Pairwise.nil (List.nil_subset _)
    · intro hrows
      exact absurd hrows hshort
  · constructor
    · apply SplitsRows.of_retain hsorted (pairwise_verified hresults)
      intro i hi
      exact ((mem_verified_iff hresults).mp hi).1
    · intro _
      refine ⟨domain, hdomain, fun i hi => ?_⟩
      rw [mem_verified_iff hresults, and_iff_right hi]

theorem verifyEquality_splits_seven :
    ∃ appRows, (appSpecificRows .checked ⟨[(⟨0⟩, ⟨0, 1⟩)]⟩ ⟨⟨1, by decide⟩, ⟨1, by decide⟩⟩ ⟨0⟩ :
        Run CommitmentsError _) = .ok appRows ∧
      SplitsRows appRows [0] [] ∧
      ([some (smallChunk 7).val, none].length = 2 → ∃ domain, bls12381.newDomain 1 = some domain ∧
        ∀ i ∈ appRows, i ∈ [0] ↔ RowVerifies bls12381 (Committer.atPoint 2) domain
          [smallCommitment 7, smallCommitment 7] [some (smallChunk 7).val, none] i) :=
  verifyEquality_splits (@verifyEquality_seven 2 (smallChunk 7).val [] rfl)

theorem commitsAt_atPoint (t : ArkScalar) : (Committer.atPoint t).CommitsAt 1 := by
  intro polynomial hlen
  obtain ⟨a, rfl⟩ := List.length_eq_one_iff.mp hlen
  obtain ⟨chunk, ha⟩ := Option.isSome_iff_exists.mp (bls12381.toBytes_isSome a)
  exact ⟨_, commitBytes_atPoint t a ha⟩

theorem invalidRowsMissing_iff_seven : InvalidRowsMissing .checked bls12381 (Committer.atPoint 2)
    ⟨1, ArkScalar.rootOfUnity 0⟩ [smallCommitment 7, smallCommitment 7] [some (smallChunk 7).val, none]
    ⟨[(⟨0⟩, ⟨0, 1⟩)]⟩ ⟨⟨1, NonZeroU16.one_bounds⟩, ⟨1, NonZeroU16.one_bounds⟩⟩ ⟨0⟩ := by
  refine (invalidRowsMissing_iff .checked bls12381_newDomain_one (commitsAt_atPoint 2) rfl rfl _ _).mpr ⟨?_, ?_⟩
  · exact exists_appSpecificRows_iff.mp ⟨[0], (rfl : _ = (.ok [0] : Run CommitmentsError _))⟩
  · intro i row hi hrow
    obtain rfl := List.mem_singleton.mp ((appRow_iff rfl).mp hi)
    cases hrow
    exact exists_tryIntoScalars_iff.mp ⟨[7], rfl⟩

/-- Two rows of one cell: with the second of them a single byte nothing is verified, and without it the first is. -/
theorem invalidRowsMissing_one_byte :
    verifyEquality .checked bls12381 (Committer.atPoint 2) (List.replicate 4 (smallCommitment 7))
      [some (smallChunk 7).val, none, some [0], none] ⟨[(⟨0⟩, ⟨0, 2⟩)]⟩
      ⟨⟨2, by decide⟩, ⟨1, NonZeroU16.one_bounds⟩⟩ ⟨0⟩ = Run.fail .badLen ∧
    verifyEquality .checked bls12381 (Committer.atPoint 2) (List.replicate 4 (smallCommitment 7))
      [some (smallChunk 7).val, none, none, none] ⟨[(⟨0⟩, ⟨0, 2⟩)]⟩
      ⟨⟨2, by decide⟩, ⟨1, NonZeroU16.one_bounds⟩⟩ ⟨0⟩ = .ok ([0], [2]) := by
  have hrow : rowIndexCommitmentVerification bls12381 (Committer.atPoint 2) ⟨1, ArkScalar.rootOfUnity 0⟩
      (smallCommitment 7) (some (smallChunk 7).val) 0 = .ok (some 0) := by
    rw [verification_iff_commit (show tryIntoScalars bls12381 (smallChunk 7).val = .ok [7] from rfl), bls12381_ifft_one]
    exact commitBytes_atPoint 2 7 rfl
  constructor
  · have hbad : ([((smallCommitment 7, some (smallChunk 7).val), 0), ((smallCommitment 7, some [0]), 2)].mapM
        fun e : (List UInt8 × Option (List UInt8)) × ℕ => rowIndexCommitmentVerification bls12381 (Committer.atPoint 2)
          ⟨1, ArkScalar.rootOfUnity 0⟩ e.1.1 e.1.2 e.2) = Run.fail .badLen := by
      rw [List.mapM_cons, hrow]
      rfl
    have hrun := congrArg (· >>= fun verified => (return (verified.reduceOption,
      [0, 2].filter fun row => !verified.reduceOption.contains row) : Run CommitmentsError _)) hbad
    exact hrun
  · rw [verifyEquality_eq_ok_iff]
    exact ⟨rfl, [0, 2], rfl, rfl, Or.inr ⟨rfl, _, [some 0, none], bls12381_newDomain_one,
      Except.mapM_ok_iff.mpr (.cons hrow (.cons rfl .nil)), rfl⟩⟩

/-! ### The commitments in a header -/

/-- `TryFromSliceError`: it has no content. -/
inductive TryFromSliceError where
  | tryFromSliceError
  deriving DecidableEq, Repr

/-- `<[u8; COMMITMENT_SIZE]>::try_from(chunk)` -/
def tryIntoCommitment (chunk : List UInt8) : Run TryFromSliceError (List.Vector UInt8 commitmentSize) :=
  if h : chunk.length = commitmentSize then .ok ⟨chunk, h⟩ else Run.fail .tryFromSliceError

theorem tryIntoCommitment_eq_ok {chunk : List UInt8} {c : List.Vector UInt8 commitmentSize} :
    tryIntoCommitment chunk = .ok c ↔ chunk = c.val := by
  unfold tryIntoCommitment
  constructor
  · intro hc
    split_ifs at hc with h
    · cases hc
      rfl
    · cases hc
  · rintro rfl
    exact dif_pos c.property

/-- `from_slice` -/
def fromSlice (source : List UInt8) : Run TryFromSliceError (List (List.Vector UInt8 commitmentSize)) :=
  (chunks commitmentSize source).mapM tryIntoCommitment

/-- **A header has the commitments that it is the concatenation of.** -/
theorem fromSlice_eq_ok_iff {source : List UInt8} {commitments : List (List.Vector UInt8 commitmentSize)} :
    fromSlice source = .ok commitments ↔ (commitments.map fun c => c.val).flatten = source := by
  have hpos : 0 < commitmentSize := by decide
  rw [fromSlice, Except.mapM_ok_iff]
  simp only [tryIntoCommitment_eq_ok]
  constructor
  · intro h
    have hchunks : chunks commitmentSize source = commitments.map fun c => c.val := by
      rw [← List.forall₂_eq_eq_eq, List.forall₂_map_right_iff]
      exact h
    rw [← hchunks, flatten_chunks hpos]
  · rintro rfl
    have hlength : ∀ c ∈ commitments.map (fun c => c.val), c.length = commitmentSize := by
      intro c hc
      obtain ⟨c, -, rfl⟩ := List.mem_map.mp hc
      exact c.property
    have hdvd : commitmentSize ∣ (commitments.map fun c => c.val).flatten.length := by
      rw [length_flatten_uniform hlength]
      exact dvd_mul_left _ _
    rw [chunks_eq_chunksExact hpos hdvd, chunksExact_flatten hpos hlength, List.forall₂_map_left_iff,
      List.forall₂_same]
    exact fun _ _ => rfl

end AvailCore
