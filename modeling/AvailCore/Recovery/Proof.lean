import AvailCore.Foundation.Chunks
import AvailCore.Recovery.Data

/-!
# Verification of multiproofs

`verify_multi_proof` of `kate/recovery/src/proof.rs`. An item gives the scalars of a
block of cells, row after row, and one proof for all of them; the block says which
columns and rows they are of. The scalars are cut into rows, and the rows handed to the
multiproof scheme with the commitments of these rows and the points of these columns.

## The model

The scheme is a third party's: it parses proofs and commitments (`Parsers`), and its
`verify` is any function of what it is given. The corners of a block are any `u32`, as
`GCellBlock::from_bytes` accepts them, so their difference is that of the `Build`.

## What is proved

`readItem_eq_ok_iff` says when an item gets as far as `verify`, and with what;
`verifyMultiProof_eq_true_iff` that the answer is yes when `verify` accepts every item.
Scalars that do not fill a row are not handed over (`verifyMultiProof_append`), and the
number of rows is left to `verify`. So the scalars of accepted items are counted only where
the blocks have one column, and `verify` counts the rows (`verifyMultiProof_counts_iff`).
Nothing checks the corners of a block before they are used, and
`verifyMultiProof_returns_iff` says for which the call does not panic.
-/

namespace AvailCore

open Chunks

/-- `proof::Error` -/
inductive ProofError where
  | invalidData
  | invalidDomain
  | invalidDegree
  | invalidPositionInDomain
  | failedToGenerateDomainPoints
  | failedToConvertEvalsToArkScalar
  | failedToParseProof
  | failedToExtractCommitments
  | failedToVerifyProof
  deriving DecidableEq, Repr

/-- `((Vec<[u8; 32]>, [u8; 48]), GCellBlock)`: scalars, a proof, and whose they are. -/
abbrev ProofItem : Type := (List Chunk × List.Vector UInt8 commitmentSize) × GCellBlock

/-- What the scheme makes of bytes. -/
structure Parsers (C P : Type) where
  /-- `ArkCommitment::from_bytes(bytes)` -/
  commitment : List UInt8 → Option C
  /-- `ArkProof::from_bytes(bytes)` -/
  proof : List.Vector UInt8 commitmentSize → Option P

/-- What is handed to the scheme for an item. -/
structure Opening (C P : Type) where
  commits : List C
  points : List ArkScalar
  evals : List (List ArkScalar)
  proof : P

/-- `PolyMultiProofNoPrecomp::verify` -/
abbrev VerifyFn (C P : Type) : Type := List C → List ArkScalar → List (List ArkScalar) → P → Option Bool

/-- `domain_points` -/
def domainPoints (A : Ark) (n : ℕ) : Run ProofError (List ArkScalar) := do
  let domain ← Run.okOr .invalidDomain (A.newDomain n)
  return domain.elements

/-- The bytes of the commitments of a block's rows, as many as there are. -/
def blockCommitments (commitments : List UInt8) (block : GCellBlock) (height : UInt32) : List (List UInt8) :=
  ((chunksExact commitmentSize commitments).drop block.startY.toNat).take height.toNat

/-- The bytes of commitments, one after the other, are those of each. -/
theorem blockCommitments_flatten {commitments : List (List UInt8)} (h : ∀ c ∈ commitments, c.length = commitmentSize)
    (block : GCellBlock) (height : UInt32) : blockCommitments commitments.flatten block height =
      (commitments.drop block.startY.toNat).take height.toNat := by
  have hpos : 0 < commitmentSize := Nat.succ_pos _
  rw [blockCommitments, chunksExact_flatten hpos h]

section Verification

variable {C P : Type} (b : Build) (A : Ark) (K : Parsers C P) (V : VerifyFn C P)

/-- The body of the loop of `verify_multi_proof`, as far as the call of `verify`. -/
def readItem (points : List ArkScalar) (commitments : List UInt8) (item : ProofItem) :
    Run ProofError (Opening C P) := do
  let evalsFlat ← item.1.1.mapM fun eval => Run.okOr .failedToConvertEvalsToArkScalar (A.fromBytes eval)
  let width ← b.sub item.2.endX item.2.startX
  -- `chunks_exact(0)` panics
  Run.assert (width ≠ 0)
  let evalsGrid := chunksExact width.toNat evalsFlat
  let proof ← Run.okOr .failedToParseProof (K.proof item.1.2)
  let height ← b.sub item.2.endY item.2.startY
  let commits ← (blockCommitments commitments item.2 height).mapM fun c =>
    Run.okOr .failedToExtractCommitments (K.commitment c)
  let points ← Run.slice points item.2.startX.toNat item.2.endX.toNat
  return ⟨commits, points, evalsGrid, proof⟩

/-- The loop of `verify_multi_proof`. -/
def verifyItems (points : List ArkScalar) (commitments : List UInt8) : List ProofItem → Run ProofError Bool
  | [] => return true
  | item :: items => do
    let o ← readItem b A K points commitments item
    let verified ← Run.okOr .failedToVerifyProof (V o.commits o.points o.evals o.proof)
    if !verified then return false
    else verifyItems points commitments items

/-- `verify_multi_proof` -/
def verifyMultiProof (proof : List ProofItem) (commitments : List UInt8) (cols : ℕ) : Run ProofError Bool := do
  let points ← domainPoints A cols
  verifyItems b A K V points commitments proof

/-- An item gets as far as `verify` with the scalars it parses to. -/
theorem readItem_eq_ok_iff {points : List ArkScalar} {commitments : List UInt8} {item : ProofItem}
    {o : Opening C P} :
    readItem b A K points commitments item = .ok o ↔ ∃ evals width height,
      (item.1.1.mapM fun eval => Run.okOr ProofError.failedToConvertEvalsToArkScalar (A.fromBytes eval)) = .ok evals ∧
      (b.sub item.2.endX item.2.startX : Run ProofError UInt32) = .ok width ∧ width ≠ 0 ∧
      K.proof item.1.2 = some o.proof ∧
      (b.sub item.2.endY item.2.startY : Run ProofError UInt32) = .ok height ∧
      ((blockCommitments commitments item.2 height).mapM fun c =>
        Run.okOr ProofError.failedToExtractCommitments (K.commitment c)) = .ok o.commits ∧
      (Run.slice points item.2.startX.toNat item.2.endX.toNat : Run ProofError _) = .ok o.points ∧
      o.evals = chunksExact width.toNat evals := by
  simp only [readItem, Except.bind_eq_ok, Run.assert_eq_ok, Run.okOr_eq_ok, Except.pure_eq_ok, Except.ok.injEq,
    decide_eq_true_eq]
  constructor
  · intro h
    obtain ⟨evals, hevals, width, hwidth, -, hne, proof, hproof, height, hheight, commits, hcommits, points',
      hpoints, rfl⟩ := h
    exact ⟨evals, width, height, hevals, hwidth, hne, hproof, hheight, hcommits, hpoints, rfl⟩
  · intro h
    obtain ⟨evals, width, height, hevals, hwidth, hne, hproof, hheight, hcommits, hpoints, hgrid⟩ := h
    refine ⟨evals, hevals, width, hwidth, (), hne, _, hproof, height, hheight, _, hcommits, _, hpoints, ?_⟩
    rw [← hgrid]

/-- The loop says yes when `verify` accepts every item. -/
theorem verifyItems_eq_true_iff {points : List ArkScalar} {commitments : List UInt8} {items : List ProofItem} :
    verifyItems b A K V points commitments items = .ok true ↔
      ∀ item ∈ items, ∃ o, readItem b A K points commitments item = .ok o ∧
        V o.commits o.points o.evals o.proof = some true := by
  induction items with
  | nil => simp [verifyItems]
  | cons item items ih =>
    simp only [verifyItems, Except.bind_eq_ok, Run.okOr_eq_ok, List.forall_mem_cons, ← ih]
    constructor
    · intro h
      obtain ⟨o, ho, verified, hverified, hrest⟩ := h
      cases verified with
      | false => cases hrest
      | true => exact ⟨⟨o, ho, hverified⟩, hrest⟩
    · intro h
      obtain ⟨⟨o, ho, hverified⟩, hrest⟩ := h
      exact ⟨o, ho, true, hverified, hrest⟩

/-- **The answer is yes when `verify` accepts every item**, on the points of the domain. -/
theorem verifyMultiProof_eq_true_iff {items : List ProofItem} {commitments : List UInt8} {cols : ℕ} :
    verifyMultiProof b A K V items commitments cols = .ok true ↔
      ∃ domain, A.newDomain cols = some domain ∧ ∀ item ∈ items, ∃ o,
        readItem b A K domain.elements commitments item = .ok o ∧
          V o.commits o.points o.evals o.proof = some true := by
  simp only [verifyMultiProof, domainPoints, Except.bind_eq_ok, Run.okOr_eq_ok, Except.pure_eq_ok,
    Except.ok.injEq, verifyItems_eq_true_iff]
  constructor
  · intro h
    obtain ⟨_, ⟨domain, hdomain, rfl⟩, hitems⟩ := h
    exact ⟨domain, hdomain, hitems⟩
  · intro h
    obtain ⟨domain, hdomain, hitems⟩ := h
    exact ⟨_, ⟨domain, hdomain, rfl⟩, hitems⟩

/-! ### Scalars that do not fill a row -/

/-- They are parsed, and not handed over. -/
theorem readItem_append {points : List ArkScalar} {commitments : List UInt8} {evals extra : List Chunk}
    {proof : List.Vector UInt8 commitmentSize} {block : GCellBlock} (hextra : ∀ e ∈ extra, (A.fromBytes e).isSome)
    (hlt : evals.length % (block.endX.toNat - block.startX.toNat) + extra.length <
      block.endX.toNat - block.startX.toNat) :
    readItem b A K points commitments ((evals ++ extra, proof), block) =
      readItem b A K points commitments ((evals, proof), block) := by
  obtain ⟨extras, hextras⟩ := (@Run.exists_mapM_okOr_iff _ _ _ ProofError.failedToConvertEvalsToArkScalar
    A.fromBytes extra).mpr hextra
  simp only [readItem, List.mapM_append, hextras]
  cases hevals : evals.mapM fun eval => Run.okOr ProofError.failedToConvertEvalsToArkScalar (A.fromBytes eval) with
  | error e => rfl
  | ok scalars =>
    have hlen := (Except.mapM_ok_iff.mp hevals).length_eq
    have hlen' := (Except.mapM_ok_iff.mp hextras).length_eq
    have hle : block.startX ≤ block.endX := by
      rw [UInt32.le_iff_toNat_le]
      omega
    have hwidth : (block.endX - block.startX).toNat = block.endX.toNat - block.startX.toNat :=
      UInt32.toNat_sub_of_le _ _ hle
    have hgrid : chunksExact (block.endX - block.startX).toNat (scalars ++ extras) =
        chunksExact (block.endX - block.startX).toNat scalars := by
      apply chunksExact_append_short
      rwa [hwidth, ← hlen, ← hlen']
    simp only [Except.ok_bind, Except.pure_eq_ok, b.sub_of_le hle, hgrid]

/-- **Scalars that do not fill another row change nothing.** -/
theorem verifyMultiProof_append {before after : List ProofItem} {commitments : List UInt8} {cols : ℕ}
    {evals extra : List Chunk} {proof : List.Vector UInt8 commitmentSize} {block : GCellBlock}
    (hextra : ∀ e ∈ extra, (A.fromBytes e).isSome)
    (hlt : evals.length % (block.endX.toNat - block.startX.toNat) + extra.length <
      block.endX.toNat - block.startX.toNat) :
    verifyMultiProof b A K V (before ++ ((evals ++ extra, proof), block) :: after) commitments cols =
      verifyMultiProof b A K V (before ++ ((evals, proof), block) :: after) commitments cols := by
  have hitems : ∀ points, verifyItems b A K V points commitments (before ++ ((evals ++ extra, proof), block) :: after) =
      verifyItems b A K V points commitments (before ++ ((evals, proof), block) :: after) := by
    intro points
    induction before with
    | nil => rw [List.nil_append, List.nil_append, verifyItems, verifyItems, readItem_append b A K hextra hlt]
    | cons item before ih => rw [List.cons_append, List.cons_append, verifyItems, verifyItems, ih]
  simp only [verifyMultiProof, hitems]

/-! ### Items that are read -/

/-- An item that gets as far as `verify`, on a domain of the given size. -/
structure Readable (size : ℕ) (commitments : List UInt8) (item : ProofItem) : Prop where
  evals : ∀ e ∈ item.1.1, (A.fromBytes e).isSome
  columns : item.2.startX < item.2.endX
  endX_le : item.2.endX.toNat ≤ size
  proof : (K.proof item.1.2).isSome
  rows : b = .checked → item.2.startY ≤ item.2.endY
  commits : ∀ c ∈ blockCommitments commitments item.2 (item.2.endY - item.2.startY), (K.commitment c).isSome

theorem exists_readItem_iff {points : List ArkScalar} {commitments : List UInt8} {item : ProofItem} :
    (∃ o, readItem b A K points commitments item = .ok o) ↔ Readable b A K points.length commitments item := by
  constructor
  · intro h
    obtain ⟨o, ho⟩ := h
    obtain ⟨evals, width, height, hevals, hwidth, hne, hproof, hheight, hcommits, hpoints, -⟩ :=
      (readItem_eq_ok_iff b A K).mp ho
    obtain ⟨hle, hsize, -⟩ := Run.slice_eq_ok_iff.mp hpoints
    rw [← UInt32.le_iff_toNat_le] at hle
    rw [b.sub_of_le hle, Except.ok.injEq] at hwidth
    have hrows := Build.eq_of_sub_eq_ok hheight
    refine ⟨Run.exists_mapM_okOr_iff.mp ⟨_, hevals⟩, ?_, hsize, by rw [hproof]; rfl, hrows.2, ?_⟩
    · refine UInt32.lt_of_le_of_ne hle fun heq => hne ?_
      rw [← hwidth, heq, UInt32.sub_self]
    · rw [← hrows.1]
      exact Run.exists_mapM_okOr_iff.mp ⟨_, hcommits⟩
  · intro h
    obtain ⟨evals, hevals⟩ := (@Run.exists_mapM_okOr_iff _ _ _ ProofError.failedToConvertEvalsToArkScalar
      A.fromBytes item.1.1).mpr h.evals
    obtain ⟨commits, hcommits⟩ := (@Run.exists_mapM_okOr_iff _ _ _ ProofError.failedToExtractCommitments
      K.commitment _).mpr h.commits
    obtain ⟨proof, hproof⟩ := Option.isSome_iff_exists.mp h.proof
    have hle := UInt32.le_of_lt h.columns
    have hslice := @Run.slice_eq_ok ProofError _ points _ _ (UInt32.le_iff_toNat_le.mp hle) h.endX_le
    refine ⟨⟨commits, _, _, proof⟩, (readItem_eq_ok_iff b A K).mpr ⟨evals, _, _, hevals, b.sub_of_le hle, ?_, hproof,
      Build.sub_eq_ok h.rows, hcommits, hslice, rfl⟩⟩
    intro hzero
    have hsub := UInt32.toNat_sub_of_le _ _ hle
    have hlt := UInt32.lt_iff_toNat_lt.mp h.columns
    rw [hzero] at hsub
    have hz : (0 : UInt32).toNat = 0 := rfl
    omega

/-! ### Panics -/

/-- Where the corners of an item's block are used, they are in order: once its scalars are read, they
have a row to fill; once its proof is, a number of rows; and once the commitments are, columns of a
domain of the given size. -/
def Orderly (size : ℕ) (commitments : List UInt8) (item : ProofItem) : Prop :=
  (∀ e ∈ item.1.1, (A.fromBytes e).isSome) →
    (b = .checked → item.2.startX ≤ item.2.endX) ∧ item.2.startX ≠ item.2.endX ∧
    ((K.proof item.1.2).isSome →
      (b = .checked → item.2.startY ≤ item.2.endY) ∧
      ((∀ c ∈ blockCommitments commitments item.2 (item.2.endY - item.2.startY), (K.commitment c).isSome) →
        item.2.startX ≤ item.2.endX ∧ item.2.endX.toNat ≤ size))

/-- Reading an item returns when its corners are in order. -/
theorem readItem_returns_iff {points : List ArkScalar} {commitments : List UInt8} {item : ProofItem} :
    Run.Returns (readItem b A K points commitments item) ↔ Orderly b A K points.length commitments item := by
  have hevals : Run.Returns (item.1.1.mapM fun eval =>
      Run.okOr ProofError.failedToConvertEvalsToArkScalar (A.fromBytes eval)) :=
    Run.returns_mapM fun eval _ => Run.returns_okOr _ _
  have hcommits : ∀ height, Run.Returns ((blockCommitments commitments item.2 height).mapM fun c =>
      Run.okOr ProofError.failedToExtractCommitments (K.commitment c)) :=
    fun height => Run.returns_mapM fun c _ => Run.returns_okOr _ _
  have hne : item.2.endX - item.2.startX ≠ 0 ↔ item.2.startX ≠ item.2.endX := by
    rw [ne_eq, UInt32.sub_eq_iff_eq_add, UInt32.zero_add, eq_comm]
  simp only [readItem, Run.returns_bind, hevals, true_and, Build.returns_sub, Run.returns_assert, Run.returns_okOr,
    hcommits, Run.returns_slice, Except.pure_eq_ok, Run.returns_ok, decide_eq_true_eq, Run.assert_eq_ok,
    Run.okOr_eq_ok]
  constructor
  · intro h hsome
    obtain ⟨evals, hevals'⟩ := Run.exists_mapM_okOr_iff.mpr hsome
    obtain ⟨hle, hrest⟩ := h evals hevals'
    obtain ⟨hzero, hrest⟩ := hrest _ (Build.sub_eq_ok hle)
    refine ⟨hle, hne.mp hzero, fun hproof => ?_⟩
    obtain ⟨proof, hproof⟩ := Option.isSome_iff_exists.mp hproof
    obtain ⟨hrows, hrest⟩ := hrest () hzero proof hproof
    refine ⟨hrows, fun hsome => ?_⟩
    obtain ⟨commits, hcommits'⟩ := (@Run.exists_mapM_okOr_iff _ _ _ ProofError.failedToExtractCommitments
      K.commitment _).mpr hsome
    obtain ⟨⟨hcolumns, hsize⟩, -⟩ := hrest _ (Build.sub_eq_ok hrows) commits hcommits'
    exact ⟨UInt32.le_iff_toNat_le.mpr hcolumns, hsize⟩
  · intro h evals hevals'
    obtain ⟨hle, hcorners, hrest⟩ := h (Run.exists_mapM_okOr_iff.mp ⟨evals, hevals'⟩)
    refine ⟨hle, fun width hwidth => ?_⟩
    rw [(Build.eq_of_sub_eq_ok hwidth).1]
    refine ⟨hne.mpr hcorners, fun _ _ proof hproof => ?_⟩
    obtain ⟨hrows, hrest⟩ := hrest (Option.isSome_iff_exists.mpr ⟨proof, hproof⟩)
    refine ⟨hrows, fun height hheight commits hcommits' => ?_⟩
    rw [(Build.eq_of_sub_eq_ok hheight).1] at hcommits'
    obtain ⟨hcolumns, hsize⟩ := hrest (Run.exists_mapM_okOr_iff.mp ⟨commits, hcommits'⟩)
    exact ⟨⟨UInt32.le_iff_toNat_le.mp hcolumns, hsize⟩, fun _ _ => trivial⟩

/-- The loop returns when each item it comes to does. -/
theorem verifyItems_returns_iff {points : List ArkScalar} {commitments : List UInt8} {items : List ProofItem} :
    Run.Returns (verifyItems b A K V points commitments items) ↔
      ∀ before item after, items = before ++ item :: after →
        verifyItems b A K V points commitments before = .ok true →
          Run.Returns (readItem b A K points commitments item) := by
  induction items with
  | nil => simp [verifyItems]
  | cons head items ih =>
    constructor
    · intro h before item after hitems hbefore
      rw [verifyItems, Run.returns_bind] at h
      cases before with
      | nil =>
        cases hitems
        exact h.1
      | cons head' before =>
        cases hitems
        simp only [verifyItems, Except.bind_eq_ok, Run.okOr_eq_ok] at hbefore
        obtain ⟨o, ho, verified, hverified, hrest⟩ := hbefore
        cases verified with
        | false => cases hrest
        | true =>
          have hreturns := h.2 o ho
          rw [Run.returns_bind] at hreturns
          exact ih.mp (hreturns.2 true (Run.okOr_eq_ok.mpr hverified)) before item after rfl hrest
    · intro h
      rw [verifyItems, Run.returns_bind]
      refine ⟨h [] head items rfl rfl, fun o ho => ?_⟩
      rw [Run.returns_bind]
      refine ⟨Run.returns_okOr _ _, fun verified hverified => ?_⟩
      cases verified with
      | false => exact Run.returns_ok false
      | true =>
        refine ih.mpr fun before item after hitems hbefore => ?_
        refine h (head :: before) item after (by rw [hitems, List.cons_append]) ?_
        simp only [verifyItems, Except.bind_eq_ok]
        exact ⟨o, ho, true, hverified, hbefore⟩

/-- **The call returns, whatever `verify` accepts, exactly when** the corners of each item are in order
unless one before it does not get as far as `verify`. -/
theorem verifyMultiProof_returns_iff {items : List ProofItem} {commitments : List UInt8} {cols : ℕ} :
    (∀ V : VerifyFn C P, Run.Returns (verifyMultiProof b A K V items commitments cols)) ↔
      ∀ domain, A.newDomain cols = some domain → ∀ before item after, items = before ++ item :: after →
        (∀ i ∈ before, Readable b A K domain.size commitments i) →
          Orderly b A K domain.size commitments item := by
  have hread : ∀ (domain : EvaluationDomain) (before : List ProofItem), (∀ i ∈ before, Readable b A K domain.size
      commitments i) ↔ ∀ i ∈ before, ∃ o, readItem b A K domain.elements commitments i = .ok o := by
    intro domain before
    simp only [exists_readItem_iff, domain.length_elements]
  simp only [verifyMultiProof, domainPoints, Run.returns_bind, Run.returns_okOr, Except.pure_eq_ok, Run.returns_ok,
    true_and, implies_true, Run.okOr_eq_ok, Except.bind_eq_ok, Except.ok.injEq]
  constructor
  · intro h domain hdomain before item after hitems hbefore
    rw [hread] at hbefore
    -- a scheme that accepts everything
    have hreturns := h (fun _ _ _ _ => some true) domain.elements ⟨domain, hdomain, rfl⟩
    have hitem := (verifyItems_returns_iff b A K _).mp hreturns before item after hitems
      ((verifyItems_eq_true_iff b A K _).mpr fun i hi => by
        obtain ⟨o, ho⟩ := hbefore i hi
        exact ⟨o, ho, rfl⟩)
    rwa [readItem_returns_iff, domain.length_elements] at hitem
  · intro h V _ hpoints
    obtain ⟨domain, hdomain, rfl⟩ := hpoints
    refine (verifyItems_returns_iff b A K V).mpr fun before item after hitems hbefore => ?_
    rw [readItem_returns_iff, domain.length_elements]
    refine h domain hdomain before item after hitems ((hread domain before).mpr fun i hi => ?_)
    obtain ⟨o, ho, -⟩ := (verifyItems_eq_true_iff b A K V).mp hbefore i hi
    exact ⟨o, ho⟩

/-! ### The number of scalars -/

/-- A proof and whose it is: an item without its scalars. -/
abbrev ProofFrame : Type := List.Vector UInt8 commitmentSize × GCellBlock

/-- What an item hands its scalars over with. -/
def frame (item : ProofItem) : ProofFrame := (item.1.2, item.2)

/-- `verify` accepts a grid of values, in rows as long as the block is wide, with the commitments, the points and the
proof of a frame. -/
def AcceptsGrid (points : List ArkScalar) (commitments : List UInt8) (f : ProofFrame)
    (grid : List (List ArkScalar)) : Prop :=
  ∃ o, readItem b A K points commitments (([], f.1), f.2) = .ok o ∧
    (∀ row ∈ grid, row.length = f.2.endX.toNat - f.2.startX.toNat) ∧ V o.commits o.points grid o.proof = some true

/-- An item whose scalars are those of another, with more after them. -/
def Appended (item item' : ProofItem) : Prop := frame item' = frame item ∧ ∃ extra, item'.1.1 = item.1.1 ++ extra

/-- The scalars that are accepted under some proofs for some blocks are counted: there are as many as the blocks have
cells, and scalars after them are not accepted. -/
structure CountsScalars (commitments : List UInt8) (cols : ℕ) (frames : List ProofFrame) : Prop where
  lengths : ∀ items : List ProofItem, items.map frame = frames →
    verifyMultiProof b A K V items commitments cols = .ok true →
      ∀ item ∈ items, (item.1.1.length : ℤ) = item.2.cells
  appended : ∀ items items' : List ProofItem, items.map frame = frames → List.Forall₂ Appended items items' →
    verifyMultiProof b A K V items commitments cols = .ok true →
      verifyMultiProof b A K V items' commitments cols = .ok true → items' = items

section Grid

variable {points : List ArkScalar} {commitments : List UInt8}

/-- The columns of a frame that is read are in order. -/
theorem columns_of_acceptsGrid {f : ProofFrame} {grid : List (List ArkScalar)}
    (h : AcceptsGrid b A K V points commitments f grid) : f.2.startX.toNat < f.2.endX.toNat := by
  obtain ⟨o, ho, -, -⟩ := h
  exact UInt32.lt_iff_toNat_lt.mp ((exists_readItem_iff b A K).mp ⟨o, ho⟩).columns

/-- An item is accepted when the whole rows of its scalars are. -/
theorem accepted_iff {item : ProofItem} :
    (∃ o, readItem b A K points commitments item = .ok o ∧ V o.commits o.points o.evals o.proof = some true) ↔
      ∃ evals, (item.1.1.mapM fun eval =>
          Run.okOr ProofError.failedToConvertEvalsToArkScalar (A.fromBytes eval)) = .ok evals ∧
        AcceptsGrid b A K V points commitments (frame item)
          (chunksExact (item.2.endX.toNat - item.2.startX.toNat) evals) := by
  have hwidth : ∀ {width : UInt32} {ps : List ArkScalar},
      (b.sub item.2.endX item.2.startX : Run ProofError UInt32) = .ok width →
      (Run.slice points item.2.startX.toNat item.2.endX.toNat : Run ProofError _) = .ok ps →
        width.toNat = item.2.endX.toNat - item.2.startX.toNat := by
    intro width ps hsub hslice
    have hle := UInt32.le_iff_toNat_le.mpr (Run.slice_eq_ok_iff.mp hslice).1
    rw [b.sub_of_le hle, Except.ok.injEq] at hsub
    rw [← hsub, UInt32.toNat_sub_of_le _ _ hle]
  constructor
  · intro h
    obtain ⟨o, ho, hverify⟩ := h
    obtain ⟨evals, width, height, hevals, hsub, hne, hproof, hheight, hcommits, hpoints, hgrid⟩ :=
      (readItem_eq_ok_iff b A K).mp ho
    refine ⟨evals, hevals, ⟨o.commits, o.points, chunksExact width.toNat [], o.proof⟩, ?_, ?_, ?_⟩
    · exact (readItem_eq_ok_iff b A K).mpr ⟨[], width, height, rfl, hsub, hne, hproof, hheight, hcommits, hpoints, rfl⟩
    · exact fun row hrow => length_of_mem_chunksExact hrow
    · rwa [← hwidth hsub hpoints, ← hgrid]
  · intro h
    obtain ⟨evals, hevals, o, ho, -, hverify⟩ := h
    obtain ⟨_, width, height, -, hsub, hne, hproof, hheight, hcommits, hpoints, -⟩ :=
      (readItem_eq_ok_iff b A K).mp ho
    refine ⟨⟨o.commits, o.points, chunksExact width.toNat evals, o.proof⟩, ?_, ?_⟩
    · exact (readItem_eq_ok_iff b A K).mpr
        ⟨evals, width, height, hevals, hsub, hne, hproof, hheight, hcommits, hpoints, rfl⟩
    · rwa [hwidth hsub hpoints]

/-- A grid that is accepted is handed over by an item, with as many scalars as it has. -/
theorem exists_item_of_acceptsGrid {f : ProofFrame} {grid : List (List ArkScalar)}
    (h : AcceptsGrid b A K V points commitments f grid) : ∃ item : ProofItem, frame item = f ∧
      item.1.1.length = grid.length * (f.2.endX.toNat - f.2.startX.toNat) ∧
      ∃ o, readItem b A K points commitments item = .ok o ∧ V o.commits o.points o.evals o.proof = some true := by
  have hpos : 0 < f.2.endX.toNat - f.2.startX.toNat := Nat.sub_pos_of_lt (columns_of_acceptsGrid b A K V h)
  obtain ⟨-, -, hrows, -⟩ := id h
  obtain ⟨bytes, hbytes⟩ := Except.exists_forall₂ fun (s : ArkScalar) (_ : s ∈ grid.flatten) =>
    Option.isSome_iff_exists.mp (A.toBytes_isSome s)
  have hread : (bytes.mapM fun eval => Run.okOr ProofError.failedToConvertEvalsToArkScalar (A.fromBytes eval)) =
      .ok grid.flatten := by
    rw [Except.mapM_ok_iff]
    exact (hbytes.imp fun _ _ hs => Run.okOr_eq_ok.mpr (A.fromBytes_toBytes hs)).flip
  refine ⟨((bytes, f.1), f.2), rfl, ?_, (accepted_iff b A K V).mpr ⟨_, hread, ?_⟩⟩
  · rw [← hbytes.length_eq, length_flatten_uniform hrows]
  · rwa [chunksExact_flatten hpos hrows]

/-- An accepted item of one frame is one of some for all, when for each some are accepted. -/
theorem exists_items {frames : List ProofFrame}
    (hall : ∀ f ∈ frames, ∃ grid, AcceptsGrid b A K V points commitments f grid) {item : ProofItem}
    (hitem : frame item ∈ frames)
    (h : ∃ o, readItem b A K points commitments item = .ok o ∧ V o.commits o.points o.evals o.proof = some true) :
    ∃ items : List ProofItem, items.map frame = frames ∧ item ∈ items ∧ ∀ i ∈ items, ∃ o,
      readItem b A K points commitments i = .ok o ∧ V o.commits o.points o.evals o.proof = some true := by
  obtain ⟨before, after, rfl⟩ := List.append_of_mem hitem
  have hothers : ∀ fs : List ProofFrame, (∀ f ∈ fs, f ∈ before ++ frame item :: after) →
      ∃ items : List ProofItem, items.map frame = fs ∧ ∀ i ∈ items, ∃ o,
        readItem b A K points commitments i = .ok o ∧ V o.commits o.points o.evals o.proof = some true := by
    intro fs hfs
    obtain ⟨items, hitems⟩ := Except.exists_forall₂ (R := fun f i => frame i = f ∧ ∃ o,
        readItem b A K points commitments i = .ok o ∧ V o.commits o.points o.evals o.proof = some true)
      fun f hf => by
        obtain ⟨grid, hgrid⟩ := hall f (hfs f hf)
        obtain ⟨i, hframe, -, hi⟩ := exists_item_of_acceptsGrid b A K V hgrid
        exact ⟨i, hframe, hi⟩
    refine ⟨items, ?_, fun i hi => ?_⟩
    · rw [← List.forall₂_eq_eq_eq, List.forall₂_map_left_iff]
      exact (hitems.imp fun _ _ h => h.1).flip
    · obtain ⟨f, -, -, hi⟩ := Except.exists_of_mem_forall₂ hitems hi
      exact hi
  obtain ⟨left, hleft, hleftAll⟩ := hothers before fun f hf => List.mem_append_left _ hf
  obtain ⟨right, hright, hrightAll⟩ := hothers after fun f hf => List.mem_append_right _ (List.mem_cons_of_mem _ hf)
  refine ⟨left ++ item :: right, ?_, by simp, ?_⟩
  · rw [List.map_append, List.map_cons, hleft, hright]
  · intro i hi
    rcases List.mem_append.mp hi with hi | hi
    · exact hleftAll i hi
    · rcases List.mem_cons.mp hi with rfl | hi
      · exact h
      · exact hrightAll i hi

end Grid

/-- Counted scalars cannot be appended to. -/
theorem eq_of_appended {items items' : List ProofItem} (h : List.Forall₂ Appended items items')
    (hcount : ∀ item ∈ items, (item.1.1.length : ℤ) = item.2.cells)
    (hcount' : ∀ item ∈ items', (item.1.1.length : ℤ) = item.2.cells) : items' = items := by
  induction h with
  | nil => rfl
  | @cons item item' items items' hhead htail ih =>
    rw [List.forall_mem_cons] at hcount hcount'
    obtain ⟨⟨evals, proof⟩, block⟩ := item
    obtain ⟨⟨evals', proof'⟩, block'⟩ := item'
    obtain ⟨hframe, extra, hextra⟩ := hhead
    obtain ⟨rfl, rfl⟩ := Prod.mk.inj hframe
    have hlen : evals'.length = evals.length := by
      exact_mod_cast hcount'.1.trans hcount.1.symm
    have hnil : extra = [] := by
      simp only at hextra
      rw [hextra, List.length_append] at hlen
      exact List.length_eq_zero_iff.mp (by omega)
    simp only [hnil, List.append_nil] at hextra
    rw [hextra, ih hcount.2 hcount'.2]

/-- **Accepted scalars are counted exactly when** none are accepted, or the blocks have one column each, and `verify`
accepts as many rows as a block has and no others. -/
theorem verifyMultiProof_counts_iff {commitments : List UInt8} {cols : ℕ} {frames : List ProofFrame} :
    CountsScalars b A K V commitments cols frames ↔
      ∀ domain, A.newDomain cols = some domain →
        (∀ f ∈ frames, ∃ grid, AcceptsGrid b A K V domain.elements commitments f grid) →
          ∀ f ∈ frames, f.2.startX.toNat + 1 = f.2.endX.toNat ∧
            ∀ grid, AcceptsGrid b A K V domain.elements commitments f grid →
              (grid.length : ℤ) = f.2.endY.toNat - f.2.startY.toNat := by
  constructor
  · intro h domain hdomain hall f hf
    have hcells : ∀ item : ProofItem, frame item = f → (∃ o, readItem b A K domain.elements commitments item = .ok o ∧
        V o.commits o.points o.evals o.proof = some true) → (item.1.1.length : ℤ) = f.2.cells := by
      rintro item rfl hitem
      obtain ⟨items, hframes, hmem, haccepted⟩ := exists_items b A K V hall hf hitem
      exact h.lengths items hframes ((verifyMultiProof_eq_true_iff b A K V).mpr ⟨domain, hdomain, haccepted⟩) item hmem
    obtain ⟨grid, hgrid⟩ := hall f hf
    have hlt := columns_of_acceptsGrid b A K V hgrid
    have hone : f.2.startX.toNat + 1 = f.2.endX.toNat := by
      by_contra hwide
      -- a scalar that does not fill a row is accepted after those of a grid
      obtain ⟨⟨⟨evals, proof⟩, block⟩, rfl, hlen, hitem⟩ := exists_item_of_acceptsGrid b A K V hgrid
      simp only [frame] at hlt hwide hlen
      obtain ⟨zero, hzero⟩ := Option.isSome_iff_exists.mp (A.toBytes_isSome 0)
      have happend := @readItem_append C P b A K domain.elements commitments evals [zero] proof block
        (by simpa using Option.isSome_iff_exists.mpr ⟨_, A.fromBytes_toBytes hzero⟩)
        (by rw [hlen, Nat.mul_mod_left, List.length_singleton]; omega)
      have hmore := hcells ((evals ++ [zero], proof), block) rfl (by rwa [happend])
      rw [← hcells ((evals, proof), block) rfl hitem] at hmore
      simp at hmore
    refine ⟨hone, fun grid hgrid => ?_⟩
    obtain ⟨item, hframe, hlen, hitem⟩ := exists_item_of_acceptsGrid b A K V hgrid
    have hcount := hcells item hframe hitem
    rw [hlen, ← hone, Nat.add_sub_cancel_left, Nat.mul_one, GCellBlock.cells, ← hone] at hcount
    rw [hcount]
    push_cast
    ring
  · intro h
    have hlengths : ∀ items : List ProofItem, items.map frame = frames →
        verifyMultiProof b A K V items commitments cols = .ok true →
          ∀ item ∈ items, (item.1.1.length : ℤ) = item.2.cells := by
      rintro items rfl hrun item hitem
      obtain ⟨domain, hdomain, haccepted⟩ := (verifyMultiProof_eq_true_iff b A K V).mp hrun
      simp only [accepted_iff] at haccepted
      have hall : ∀ f ∈ items.map frame, ∃ grid, AcceptsGrid b A K V domain.elements commitments f grid := by
        intro f hf
        obtain ⟨i, hi, rfl⟩ := List.mem_map.mp hf
        obtain ⟨_, -, hgrid⟩ := haccepted i hi
        exact ⟨_, hgrid⟩
      obtain ⟨hone, hrows⟩ := h domain hdomain hall (frame item) (List.mem_map_of_mem hitem)
      obtain ⟨evals, hevals, hgrid⟩ := haccepted item hitem
      simp only [frame] at hone
      have hcount := hrows _ hgrid
      rw [← hone, Nat.add_sub_cancel_left, length_chunksExact, Nat.div_one,
        ← (Except.mapM_ok_iff.mp hevals).length_eq] at hcount
      simp only [frame] at hcount
      rw [hcount, GCellBlock.cells, ← hone]
      push_cast
      ring
    refine ⟨hlengths, fun items items' hframes happended hrun hrun' => ?_⟩
    have hframes' : items'.map frame = frames := by
      rw [← hframes, ← List.forall₂_eq_eq_eq, List.forall₂_map_left_iff, List.forall₂_map_right_iff]
      exact (happended.imp fun _ _ h => h.1).flip
    exact eq_of_appended happended (hlengths items hframes hrun) (hlengths items' hframes' hrun')

end Verification

/-- Commitments to constants, which are the constant's bytes, and no proof. -/
def constantParsers : Parsers ArkScalar Unit where
  commitment c := if h : (c.take chunkSize).length = chunkSize then bls12381.fromBytes ⟨c.take chunkSize, h⟩ else none
  proof _ := some ()

/-- Each row of the grid is the row's constant at each of the points. -/
def verifyConstants : VerifyFn ArkScalar Unit := fun commits points evals _ =>
  some (decide (evals = commits.map fun c => points.map fun _ => c))

/-- The bytes of the point at infinity, which are those of the commitment to 0 and of a proof of its values. -/
def infinityBytes : List.Vector UInt8 commitmentSize := ⟨0xc0 :: List.replicate 47 0, rfl⟩

/-- Of all points, only the one at infinity is read. -/
def infinityParsers : Parsers Unit Unit where
  commitment c := if c = infinityBytes.val then some () else none
  proof bytes := if bytes = infinityBytes then some () else none

/-- The values of 0 are 0. -/
def verifyZeros : VerifyFn Unit Unit := fun commits points evals _ =>
  some (decide (evals = commits.map fun _ => points.map fun _ => 0))

/-- A third scalar is accepted for a block of two cells: the 9 is no value of anything. -/
theorem verifyMultiProof_extra_scalar :
    verifyMultiProof .checked bls12381 infinityParsers verifyZeros
      [(([smallChunk 0, smallChunk 0], infinityBytes), ⟨0, 0, 2, 1⟩)] infinityBytes.val 2 = .ok true ∧
    verifyMultiProof .checked bls12381 infinityParsers verifyZeros
      [(([smallChunk 0, smallChunk 0] ++ [smallChunk 9], infinityBytes), ⟨0, 0, 2, 1⟩)] infinityBytes.val 2 = .ok true ∧
    (([smallChunk 0, smallChunk 0] ++ [smallChunk 9]).length : ℤ) ≠ (GCellBlock.mk 0 0 2 1).cells := by
  have happend := @verifyMultiProof_append _ _ .checked bls12381 infinityParsers verifyZeros [] []
    infinityBytes.val 2 [smallChunk 0, smallChunk 0] [smallChunk 9] infinityBytes ⟨0, 0, 2, 1⟩
    (by simp; rfl) (by decide)
  have haccepted : verifyMultiProof .checked bls12381 infinityParsers verifyZeros
      [(([smallChunk 0, smallChunk 0], infinityBytes), ⟨0, 0, 2, 1⟩)] infinityBytes.val 2 = .ok true := by
    refine (verifyMultiProof_eq_true_iff ..).mpr ⟨_, bls12381_newDomain_two, fun item hitem => ?_⟩
    obtain rfl := List.mem_singleton.mp hitem
    exact ⟨⟨[()], _, [[0, 0]], ()⟩, rfl, by simp [verifyZeros, EvaluationDomain.elements, List.range_succ]⟩
  rw [List.nil_append] at happend
  exact ⟨haccepted, happend.trans haccepted, by decide⟩

/-- A block of no cells, as it is read from 16 zeros, is a panic in either build. -/
theorem verifyMultiProof_no_cells :
    GCellBlock.fromBytes (List.replicate 16 0) = .ok ⟨0, 0, 0, 0⟩ ∧
    ∀ b : Build, ¬ Run.Returns (verifyMultiProof b bls12381 constantParsers verifyConstants
      [(([], List.Vector.replicate 48 0), ⟨0, 0, 0, 0⟩)] [] 2) := by
  refine ⟨GCellBlock.fromBytes_toBytes ⟨0, 0, 0, 0⟩, fun b => ?_⟩
  have hpanic : verifyMultiProof b bls12381 constantParsers verifyConstants
      [(([], List.Vector.replicate 48 0), ⟨0, 0, 0, 0⟩)] [] 2 = .error .panic := by
    rw [verifyMultiProof, domainPoints, bls12381_newDomain_two]
    rfl
  rw [hpanic]
  exact Run.not_returns_panic

end AvailCore
