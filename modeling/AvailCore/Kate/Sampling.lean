import AvailCore.Kate.AppRows
import AvailCore.Kate.CellOpening
import AvailCore.Kate.DecodeApp
import AvailCore.Recovery.RangeBounds

/-!
# A block, read by a light client that trusts no one

A light client has the header of a block: the dimensions, the lookup and the commitments
to the rows. Cells come from peers, who may answer with any bytes. It keeps those that
`verify_v2` accepts against the commitment to their row, in the columns that it asked
for, and reads the block from them.

## The model

The node's side is that of the other modules: `from_extrinsics`, `extend_columns` and the
commitments to the rows of the extension. Of the cells only what the client checks is
known (`Sampled`).

A commitment does not bind by itself: there are openings of it to other values, which are
hard to find. So nothing is assumed of them, and a result says what the client gets, or
names an opening of this kind among what it was sent: a cell whose value and proof are
accepted at a point where the node, which can open its cells, opens the same commitment to
another value (`Forged`), or two cells that contradict each other (`Contradict`).

## What is proved

What a node sends is verified (`SentCell.sampled`). A verified cell is a cell of the extended
grid, or forged (`hasCell_or_forged`). So whoever sent the cells, without a forged one among
them a client gets the published extrinsics or an error, and which of the two depends on the
positions alone (`reconstructExtrinsics_sampled`, `decodeAppExtrinsics_sampled`).

When the publisher is not honest either, what the rows commit to need not be an extended
grid. Clients still do not disagree on the data of an application, unless two of their cells
contradict each other, as nothing is interpolated for it; and what is interpolated is the
same from the same positions (`sampled_agree`).
-/

namespace AvailCore

open AvailCore.Fourier

variable {C P : Type}

/-- Every cell of the grid can be opened. -/
def EvaluationGrid.Opens (A : Ark) (S : CellScheme C P) (e : EvaluationGrid) : Prop :=
  ∀ domain, A.newDomain e.dims.width = some domain → ∀ row < e.dims.height, ∀ col < e.dims.width,
    ∃ proof, openAt A e domain S row col = .ok proof

/-- A cell that a client keeps: of a column of the matrix, and verified against the commitment to its row. -/
structure Sampled (A : Ark) (S : CellScheme C P) (dimensions : Dimensions) (commitments : List (List UInt8))
    (cell : SingleCell) : Prop where
  col_lt : cell.position.col < dimensions.width
  verified : ∃ commitment : List.Vector UInt8 commitmentSize, commitments[cell.position.row]? = some commitment.val ∧
    verifyV2 A S.toParsers S.verify dimensions commitment cell = .ok true

/-! ### A verified cell -/

section Openings

variable (A : Ark) (S : CellScheme C P) (dimensions : Dimensions) (commitments : List (List UInt8))

/-- A value and a proof that `verify` accepts at the point of a column, with the commitment to a row. -/
def Opened (position : Position) (value : ArkScalar) (proof : P) : Prop :=
  ∃ bytes c domain, commitments[position.row]? = some bytes ∧ S.commitment bytes = some c ∧
    A.newDomain dimensions.width = some domain ∧ S.verify c (domain.element position.col) value proof = some true

/-- Two openings of one commitment at one point, to different values. -/
structure DoubleOpening (position : Position) (value value' : ArkScalar) (proof proof' : P) : Prop where
  first : Opened A S dimensions commitments position value proof
  second : Opened A S dimensions commitments position value' proof'
  differ : value ≠ value'

/-- Two cells in one position that open the commitment to its row differently. -/
def Contradict (cell cell' : SingleCell) : Prop :=
  cell.position = cell'.position ∧ ∃ value value' proof proof', A.fromBytes cell.data = some value ∧
    A.fromBytes cell'.data = some value' ∧ S.proof cell.proof = some proof ∧ S.proof cell'.proof = some proof' ∧
    DoubleOpening A S dimensions commitments cell.position value value' proof proof'

end Openings

/-- A cell that opens the commitment to its row differently than the grid that was committed to. -/
def Forged (A : Ark) (S : CellScheme C P) (e : EvaluationGrid) (commitments : List (List UInt8)) (cell : SingleCell) :
    Prop :=
  ∃ value proof domain s opening, A.fromBytes cell.data = some value ∧ S.proof cell.proof = some proof ∧
    A.newDomain e.dims.width = some domain ∧ e.evals.get cell.position.row cell.position.col = some s ∧
    openAt A e domain S cell.position.row cell.position.col = .ok opening ∧
    DoubleOpening A S e.dims commitments cell.position value s proof opening

/-- What is verified of a cell: its own value and its own proof. -/
theorem Sampled.opened {A : Ark} {S : CellScheme C P} {d : Dimensions} {commitments : List (List UInt8)}
    {cell : SingleCell} (h : Sampled A S d commitments cell) :
    ∃ value proof, A.fromBytes cell.data = some value ∧ S.proof cell.proof = some proof ∧
      Opened A S d commitments cell.position value proof := by
  obtain ⟨commitment, hget, hverify⟩ := h.verified
  obtain ⟨c, value, domain, proof, hc, hvalue, hdomain, hproof, haccept⟩ := (verifyV2_eq_true_iff ..).mp hverify
  exact ⟨value, proof, hvalue, hproof, _, c, domain, hget, hc, hdomain, haccept⟩

/-- Verified cells in one position have the same bytes, or contradict each other. -/
theorem data_eq_or_contradict {A : Ark} {S : CellScheme C P} {d : Dimensions} {commitments : List (List UInt8)}
    {cell cell' : SingleCell} (h : Sampled A S d commitments cell) (h' : Sampled A S d commitments cell')
    (hposition : cell.position = cell'.position) : cell.data = cell'.data ∨ Contradict A S d commitments cell cell' := by
  obtain ⟨value, proof, hvalue, hproof, hopened⟩ := h.opened
  obtain ⟨value', proof', hvalue', hproof', hopened'⟩ := h'.opened
  by_cases hsame : value = value'
  · subst hsame
    exact .inl (A.fromBytes_inj hvalue hvalue')
  · exact .inr ⟨hposition, value, value', proof, proof', hvalue, hvalue', hproof, hproof', hopened,
      hposition ▸ hopened', hsame⟩

/-- The polynomial of a row has its cells as values. -/
theorem eval_ifft_row {A : Ark} {e : EvaluationGrid} {domain : EvaluationDomain}
    (hdomain : A.newDomain e.dims.width = some domain) {row col : ℕ} {s : ArkScalar}
    (hs : e.evals.get row col = some s) : (toPoly (A.ifft domain (e.evals.row row))).eval (domain.element col) = s := by
  obtain ⟨hrow, hcol⟩ := DMatrix.lt_of_get_eq_some hs
  have hlength : (e.evals.row row).length ≤ domain.size := by
    rw [e.evals.length_row hrow, A.size_newDomain hdomain]
    exact le_nextPowerOfTwo _
  rw [← e.evals.getElem?_row hrow] at hs
  exact A.eval_ifft_of_le hdomain hlength hs

/-- What a node sends for a cell: its value and the proof, as bytes. -/
def SentCell (A : Ark) (S : CellScheme C P) (e : EvaluationGrid) (cell : SingleCell) : Prop :=
  ∃ domain s opening, A.newDomain e.dims.width = some domain ∧
    e.evals.get cell.position.row cell.position.col = some s ∧
    openAt A e domain S cell.position.row cell.position.col = .ok opening ∧
    S.proofToBytes opening = some cell.proof ∧ A.toBytes s = some cell.data

section Committed

variable {A : Ark} {S : CellScheme C P} {e : EvaluationGrid} {commitments : List (List UInt8)}
  (hcommit : e.commitmentsBytes A S.toCommitter = .ok commitments)

include hcommit in
/-- What the node opens is accepted with the commitment that it published. -/
theorem opened_of_openAt {domain : EvaluationDomain} (hdomain : A.newDomain e.dims.width = some domain)
    {position : Position} {s : ArkScalar} (hs : e.evals.get position.row position.col = some s) {opening : P}
    (hopening : openAt A e domain S position.row position.col = .ok opening) :
    Opened A S e.dims commitments position s opening := by
  obtain ⟨domain', hdomain', hrows⟩ := commitmentsBytes_eq_ok hcommit
  obtain rfl : domain = domain' := Option.some.inj (hdomain.symm.trans hdomain')
  obtain ⟨hrow, -⟩ := DMatrix.lt_of_get_eq_some hs
  obtain ⟨bytes, hget, hbytes⟩ : ∃ bytes, commitments[position.row]? = some bytes ∧
      (S.commitBytes (A.ifft domain (e.evals.row position.row)) : Run CommitmentsError _) = .ok bytes := by
    have hlt : position.row < (List.range e.dims.height).length := by rwa [List.length_range]
    have hlt' : position.row < commitments.length := hrows.length_eq ▸ hlt
    have hcommitted := hrows.get hlt hlt'
    rw [List.get_eq_getElem, List.get_eq_getElem, List.getElem_range] at hcommitted
    exact ⟨_, List.getElem?_eq_getElem hlt', hcommitted⟩
  simp only [Committer.commitBytes, Except.bind_eq_ok, Run.okOr_eq_ok] at hbytes
  obtain ⟨c, hcommitted, htoBytes⟩ := hbytes
  simp only [openAt, Except.bind_eq_ok, Run.okOr_eq_ok] at hopening
  obtain ⟨witness, hwitness, hopen⟩ := hopening
  have haccept := S.complete hcommitted hwitness hopen
  rw [eval_ifft_row hdomain hs] at haccept
  exact ⟨bytes, c, domain, hget, S.commitment_toBytes htoBytes, hdomain, haccept⟩

include hcommit in
/-- **A verified cell is a cell of the published grid, or forged**, whoever sent it. -/
theorem hasCell_or_forged (hopens : e.Opens A S) {d : Dimensions} (hwidth : e.dims.width = d.width) {cell : SingleCell}
    (h : Sampled A S d commitments cell) : e.HasCell A cell.toDataCell ∨ Forged A S e commitments cell := by
  obtain ⟨value, proof, hvalue, hproof, bytes, c, domain, hget, hc, hdomain, haccept⟩ := h.opened
  rw [← hwidth] at hdomain
  have hrow : cell.position.row < e.dims.height := by
    obtain ⟨_, -, hrows⟩ := commitmentsBytes_eq_ok hcommit
    have hlt := (List.getElem?_eq_some_iff.mp hget).1
    rwa [← hrows.length_eq, List.length_range] at hlt
  have hcol : cell.position.col < e.dims.width := hwidth ▸ h.col_lt
  obtain ⟨s, hs⟩ := e.evals.exists_get hrow hcol
  obtain ⟨opening, hopening⟩ := hopens domain hdomain _ hrow _ hcol
  by_cases hsame : value = s
  · subst hsame
    exact .inl ⟨value, hs, A.toBytes_fromBytes hvalue⟩
  · exact .inr ⟨value, proof, domain, s, opening, hvalue, hproof, hdomain, hs, hopening,
      ⟨bytes, c, domain, hget, hc, hdomain, haccept⟩, opened_of_openAt hcommit hdomain hs hopening, hsame⟩

include hcommit in
theorem forged_or_hasCell (hopens : e.Opens A S) {d : Dimensions} (hwidth : e.dims.width = d.width)
    {cells : List SingleCell} (hcells : ∀ c ∈ cells, Sampled A S d commitments c) :
    (∃ c ∈ cells, Forged A S e commitments c) ∨ ∀ c ∈ cells.map SingleCell.toDataCell, e.HasCell A c := by
  by_cases hforged : ∃ c ∈ cells, Forged A S e commitments c
  · exact .inl hforged
  · refine .inr (List.forall_mem_map.mpr fun c hc => ?_)
    exact (hasCell_or_forged hcommit hopens hwidth (hcells c hc)).resolve_right fun h => hforged ⟨c, hc, h⟩

include hcommit in
/-- **What a node sends is verified.** -/
theorem SentCell.sampled {d : Dimensions} (hwidth : e.dims.width = d.width) {cell : SingleCell}
    (h : SentCell A S e cell) : Sampled A S d commitments cell := by
  obtain ⟨domain, s, opening, hdomain, hs, hopening, hproof, hdata⟩ := h
  obtain ⟨bytes, c, domain', hget, hc, hdomain', haccept⟩ := opened_of_openAt hcommit hdomain hs hopening
  obtain rfl : domain = domain' := Option.some.inj (hdomain.symm.trans hdomain')
  have hlength : bytes.length = commitmentSize := by
    obtain ⟨_, -, hrows⟩ := commitmentsBytes_eq_ok hcommit
    obtain ⟨_, -, hbytes⟩ := Except.exists_of_mem_forall₂ hrows (List.mem_of_getElem? hget)
    simp only [Committer.commitBytes, Except.bind_eq_ok, Run.okOr_eq_ok] at hbytes
    obtain ⟨_, -, htoBytes⟩ := hbytes
    exact S.length_toBytes htoBytes
  refine ⟨hwidth ▸ (DMatrix.lt_of_get_eq_some hs).2, ⟨bytes, hlength⟩, hget, (verifyV2_eq_true_iff ..).mpr ?_⟩
  exact ⟨c, s, domain, opening, hc, A.fromBytes_toBytes hdata, hwidth ▸ hdomain, S.proof_proofToBytes hproof, haccept⟩

end Committed

/-- What a node sends is a cell of its grid. -/
theorem SentCell.hasCell {A : Ark} {S : CellScheme C P} {e : EvaluationGrid} {cell : SingleCell}
    (h : SentCell A S e cell) : e.HasCell A cell.toDataCell := by
  obtain ⟨-, s, -, -, hs, -, -, hdata⟩ := h
  exact ⟨s, hs, hdata⟩

/-- No cell of the grid is forged. -/
theorem not_forged_of_hasCell {A : Ark} {S : CellScheme C P} {e : EvaluationGrid} {commitments : List (List UInt8)}
    {cell : SingleCell} (h : e.HasCell A cell.toDataCell) : ¬ Forged A S e commitments cell := by
  rintro ⟨value, proof, domain, s, opening, hvalue, -, -, hs, -, hdouble⟩
  obtain ⟨s', hs', hdata⟩ := h
  obtain rfl : s = s' := Option.some.inj (hs.symm.trans hs')
  exact hdouble.differ (Option.some.inj (hvalue.symm.trans (A.fromBytes_toBytes hdata)))

theorem inColumn_ne_nil_of_sampled {cells : List SingleCell} {col : ℕ} (h : ∃ c ∈ cells, c.position.col = col) :
    inColumn (cells.map SingleCell.toDataCell) col ≠ [] := by
  obtain ⟨c, hc, rfl⟩ := h
  exact inColumn_ne_nil (List.mem_map_of_mem (f := SingleCell.toDataCell) hc)

theorem map_position_toDataCell (cells : List SingleCell) :
    (cells.map SingleCell.toDataCell).map DataCell.position = cells.map SingleCell.position := by
  rw [List.map_map]
  rfl

/-! ### Columns of the published grid -/

/-- The cells are in distinct positions, as many of a column as it has scalars, or none. -/
structure EnoughOrNone (d : Dimensions) (cells : List DataCell) : Prop where
  nodup : (cells.map DataCell.position).Nodup
  enough : ∀ col, inColumn cells col ≠ [] → d.height ≤ (inColumn cells col).length

section Published

variable {A : Ark} {g e : EvaluationGrid} (he : g.extendColumns A ⟨extensionFactor, by decide⟩ = .ok e)
include he

/-- The columns are extended from one domain to one twice as large. -/
theorem exists_columnDomains_of_extendColumns : e.dims.height = g.dims.height * extensionFactor ∧
    e.dims.width = g.dims.width ∧ ∃ k short d, g.dims.height = 2 ^ k ∧ ColumnDomains A k short d ∧
      e.evals.columns = g.evals.columns.map fun col => A.fft d (A.ifft short col) := by
  obtain ⟨-, hheight, hwidth, short, d, hshort, hd, -, hcolumns⟩ := EvaluationGrid.extendColumns_eq_ok he
  obtain ⟨k, -, hk, -⟩ := EvaluationGrid.exists_two_pow_of_extendColumns he
  have hlong : e.dims.height = 2 * 2 ^ k := by rw [hheight, hk, Nat.mul_comm]
  exact ⟨hheight, hwidth, k, short, d, hk, ⟨hk ▸ hshort, hlong ▸ hd⟩, hcolumns⟩

variable {cells : List DataCell} (hcells : ∀ c ∈ cells, e.HasCell A c)
include hcells

/-- The cells of the extended grid are those of the extended matrix. -/
theorem mappable_iff_nodup : Mappable g.dims cells ↔ (cells.map DataCell.position).Nodup := by
  obtain ⟨hheight, hwidth, -⟩ := exists_columnDomains_of_extendColumns he
  refine ⟨Mappable.nodup, fun hnodup => ⟨fun c hc => ?_, hnodup⟩⟩
  obtain ⟨s, hs, -⟩ := hcells c hc
  obtain ⟨hrow, hcol⟩ := DMatrix.lt_of_get_eq_some hs
  rw [hheight] at hrow
  exact g.dims.extendedContains_iff.mpr ⟨hrow, hwidth ▸ hcol⟩

/-- **A column comes back as it was**, or there are too few cells of it. -/
theorem columnOf_published (R : Runtime) (hnodup : (cells.map DataCell.position).Nodup) {col : ℕ}
    (hne : inColumn cells col ≠ []) : columnOf A R g.dims cells col =
      if g.dims.height ≤ (inColumn cells col).length then .ok (g.evals.column col)
      else Run.fail (.invalidColumn col) := by
  obtain ⟨hheight, hwidth, k, short, d, hk, hdom, hcolumns⟩ := exists_columnDomains_of_extendColumns he
  have hmem : ∀ c ∈ inColumn cells col, c ∈ cells ∧ c.position.col = col := by
    intro c hc
    obtain ⟨hc, hcol⟩ := List.mem_filter.mp hc
    exact ⟨hc, of_decide_eq_true hcol⟩
  rw [columnOf]
  split_ifs with hcount
  · obtain ⟨first, hfirst⟩ := List.exists_mem_of_ne_nil _ hne
    have hcol : col < g.dims.width := by
      obtain ⟨hin, rfl⟩ := hmem first hfirst
      obtain ⟨s, hs, -⟩ := hcells first hin
      exact hwidth ▸ (DMatrix.lt_of_get_eq_some hs).2
    have hof : CellsOf A (A.fft d (A.ifft short (g.evals.column col))) (inColumn cells col) := by
      refine ⟨nodup_rows_inColumn hnodup col, ?_, ?_⟩
      · intro c hc c' hc'
        rw [(hmem c hc).2, (hmem c' hc').2]
      · intro c hc
        obtain ⟨s, hs, hbytes⟩ := hcells c (hmem c hc).1
        rw [e.evals.get_eq_column, (hmem c hc).2, DMatrix.column_of_columns_eq hcolumns hcol] at hs
        exact ⟨s, hs, hbytes⟩
    have hrows : g.dims.extendedRows = 2 * 2 ^ k := by
      rw [Nat.mul_comm, ← hk]
      rfl
    rw [decide_eq_true hcount, Run.ensure_true, Except.ok_bind, hrows]
    exact hdom.reconstructColumn_fft_ifft R ((g.evals.length_column_of_lt hcol).trans hk) hof (hk ▸ hcount)
  · rw [decide_eq_false hcount]
    rfl

/-- So the matrix is reconstructed when there are enough cells of each column that has some. -/
theorem exists_reconstructAvailable_published_iff (R : Runtime) :
    (∃ data, reconstructAvailable A R g.dims cells = .ok data) ↔ EnoughOrNone g.dims cells := by
  rw [exists_reconstructAvailable_iff, mappable_iff_nodup he hcells]
  constructor
  · rintro ⟨hnodup, hall⟩
    refine ⟨hnodup, fun col hne => ?_⟩
    obtain ⟨scalars, hscalars⟩ := hall col hne
    rw [columnOf_published he hcells R hnodup hne] at hscalars
    split_ifs at hscalars with hcount
    · exact hcount
    · cases hscalars
  · intro h
    refine ⟨h.nodup, fun col hne => ⟨g.evals.column col, ?_⟩⟩
    rw [columnOf_published he hcells R h.nodup hne, if_pos (h.enough col hne)]

end Published

/-! ### Two applications -/

theorem opens_atPoint (t : ArkScalar) (e : EvaluationGrid) : e.Opens bls12381 (CellScheme.atPoint t) :=
  fun _ _ _ _ _ _ => ⟨_, rfl⟩

/-- In any positions of the extension there are cells that a node sends, and that are verified. -/
theorem exists_sampled_twoApps {positions : List Position} (hin : ∀ p ∈ positions, p.row < 4 ∧ p.col < 4) :
    ∃ cells : List SingleCell, cells.map SingleCell.position = positions ∧
      (∀ c ∈ cells, Sampled bls12381 (CellScheme.atPoint 5) twoAppsGrid.dims twoAppsCommitments c) ∧
      ∀ c ∈ cells, twoAppsExtended.HasCell bls12381 c.toDataCell := by
  have hsent : ∀ p ∈ positions, ∃ c : SingleCell, c.position = p ∧
      SentCell bls12381 (CellScheme.atPoint 5) twoAppsExtended c := by
    intro p hp
    obtain ⟨s, hs⟩ := twoAppsExtended.evals.exists_get (hin p hp).1 (hin p hp).2
    obtain ⟨opening, hopening⟩ :=
      opens_atPoint 5 twoAppsExtended _ bls12381_newDomain_four _ (hin p hp).1 _ (hin p hp).2
    obtain ⟨proof, hproof⟩ : ∃ proof, (CellScheme.atPoint 5).proofToBytes opening = some proof := ⟨_, rfl⟩
    obtain ⟨data, hdata⟩ := Option.isSome_iff_exists.mp (bls12381.toBytes_isSome s)
    obtain ⟨c, rfl, hcproof, hcdata⟩ := exists_singleCell p proof data
    exact ⟨c, rfl, _, s, opening, bls12381_newDomain_four, hs, hopening, hcproof ▸ hproof, hcdata ▸ hdata⟩
  obtain ⟨cells, hcells⟩ := Except.exists_forall₂ hsent
  have hall : ∀ c ∈ cells, SentCell bls12381 (CellScheme.atPoint 5) twoAppsExtended c := by
    intro c hc
    obtain ⟨p, -, -, h⟩ := Except.exists_of_mem_forall₂ hcells hc
    exact h
  refine ⟨cells, ?_, fun c hc => ?_, fun c hc => (hall c hc).hasCell⟩
  · rw [← List.forall₂_eq_eq_eq, List.forall₂_map_left_iff]
    exact (hcells.imp fun _ _ h => h.1).flip
  · exact @SentCell.sampled _ _ _ (CellScheme.atPoint 5) _ _ commitmentsBytes_twoApps twoAppsGrid.dims rfl _ (hall c hc)

/-- Cells of one grid do not contradict each other. -/
theorem not_contradict_of_hasCell {A : Ark} {S : CellScheme C P} {e : EvaluationGrid} {d : Dimensions}
    {commitments : List (List UInt8)} {cell cell' : SingleCell} (h : e.HasCell A cell.toDataCell)
    (h' : e.HasCell A cell'.toDataCell) : ¬ Contradict A S d commitments cell cell' := by
  rintro ⟨hposition, value, value', _, _, hvalue, hvalue', -, -, hdouble⟩
  obtain ⟨s, hs, hdata⟩ := h
  obtain ⟨s', hs', hdata'⟩ := h'
  have hget : e.evals.get cell.position.row cell.position.col = some s' := hposition ▸ hs'
  obtain rfl : s = s' := Option.some.inj (hs.symm.trans hget)
  have hfirst : value = s := Option.some.inj (hvalue.symm.trans (A.fromBytes_toBytes hdata))
  have hsecond : value' = s := Option.some.inj (hvalue'.symm.trans (A.fromBytes_toBytes hdata'))
  exact hdouble.differ (hfirst.trans hsecond.symm)

/-- Among cells of the grid none is forged. -/
theorem not_exists_forged {A : Ark} {S : CellScheme C P} {e : EvaluationGrid} {commitments : List (List UInt8)}
    {cells : List SingleCell} (h : ∀ c ∈ cells, e.HasCell A c.toDataCell) :
    ¬ ∃ c ∈ cells, Forged A S e commitments c := by
  rintro ⟨c, hc, hforged⟩
  exact not_forged_of_hasCell (h c hc) hforged

/-! ### What a client gets from verified cells -/

/-- From cells of the extended grid in every column, what it carries comes back, or there is an error. -/
theorem reconstructExtrinsics_published {A : Ark} (hA : A.HasHalves) (R : Runtime) {K : Codec AppData}
    {g e : EvaluationGrid} {held : List ((AppId × AppData) × List (List UInt8))} {filler : List (List UInt8)}
    (hcarries : g.Carries A K held filler) (he : g.extendColumns A ⟨extensionFactor, by decide⟩ = .ok e)
    (hlen : g.lookup.len.toNat * chunkSize < 2 ^ 32) {cells : List DataCell} (hvalue : ∀ c ∈ cells, e.HasCell A c)
    (hsome : ∀ col < g.dims.width, inColumn cells col ≠ []) :
    (EnoughOrNone g.dims cells → reconstructExtrinsics A R K g.lookup g.dims cells = .ok (held.map Prod.fst)) ∧
    (¬ EnoughOrNone g.dims cells → ∃ error, reconstructExtrinsics A R K g.lookup g.dims cells = Run.fail error) := by
  obtain ⟨hheight, hwidth, k, short, d, hk, hdom, hcolumns⟩ := hcarries.exists_columnDomains he
  constructor
  · intro henough
    have hhalf : ∀ col < e.dims.width, g.dims.height ≤ (inColumn cells col).length :=
      fun col hcol => henough.enough col (hsome col (hwidth ▸ hcol))
    have hhalfOf := halfOf_of_columns_eq hheight hwidth hcolumns hvalue henough.nodup hhalf
    have hdata := hcarries.reconstructAvailable_eq hdom hk hhalfOf R
    obtain ⟨r, hr, hdecode⟩ := hcarries.unflattenPaddedData_eq hlen
    simp only [reconstructExtrinsics, hdata, hr, hdecode, Except.ok_bind, Run.mapErr_ok]
  · intro hfew
    have hnot : ∀ data, reconstructAvailable A R g.dims cells ≠ .ok data := by
      intro data hdata
      exact hfew ((exists_reconstructAvailable_published_iff he hvalue R).mp ⟨data, hdata⟩)
    obtain ⟨error, herror⟩ := (reconstructAvailable_returns hA R g.dims _).exists_fail hnot
    refine ⟨error, ?_⟩
    rw [reconstructExtrinsics, herror]
    rfl

/-- **A client that samples all columns gets the published extrinsics, or an error**, whoever sent the cells: the
extrinsics when it has enough cells of each column, in distinct positions, and an error else. Or one of its cells is
forged. -/
theorem reconstructExtrinsics_sampled {A : Ark} (hA : A.HasHalves) (R : Runtime) (K : Codec AppData) (rng : Rng)
    (S : CellScheme C P) {extrinsics : List AppExtrinsic} {minWidth maxWidth maxHeight : ℕ} {rngSeed : Seed}
    {g e : EvaluationGrid}
    (hg : EvaluationGrid.fromExtrinsics A K rng extrinsics minWidth maxWidth maxHeight rngSeed = .ok g)
    (he : g.extendColumns A ⟨extensionFactor, by decide⟩ = .ok e) (hlen : g.lookup.len.toNat * chunkSize < 2 ^ 32)
    {commitments : List (List UInt8)} (hcommit : e.commitmentsBytes A S.toCommitter = .ok commitments)
    (hopens : e.Opens A S) {cells : List SingleCell} (hcells : ∀ c ∈ cells, Sampled A S g.dims commitments c)
    (hsome : ∀ col < g.dims.width, ∃ c ∈ cells, c.position.col = col) :
    (∃ c ∈ cells, Forged A S e commitments c) ∨
    (EnoughOrNone g.dims (cells.map SingleCell.toDataCell) →
      reconstructExtrinsics A R K g.lookup g.dims (cells.map SingleCell.toDataCell) = .ok (groupsOf extrinsics)) ∧
    (¬ EnoughOrNone g.dims (cells.map SingleCell.toDataCell) →
      ∃ error, reconstructExtrinsics A R K g.lookup g.dims (cells.map SingleCell.toDataCell) = Run.fail error) := by
  obtain ⟨-, hcarries⟩ := EvaluationGrid.carries_of_fromExtrinsics hg
  obtain ⟨-, hwidth, -⟩ := exists_columnDomains_of_extendColumns he
  refine (forged_or_hasCell hcommit hopens hwidth hcells).imp_right fun hvalue => ?_
  have hpublished := reconstructExtrinsics_published hA R hcarries he hlen hvalue
    fun col hcol => inColumn_ne_nil_of_sampled (hsome col hcol)
  rwa [map_fst_chunkedGroups] at hpublished

/-- The columns have half of their cells each, or more. -/
theorem enoughOrNone_of_positions {positions : List Position} (hnodup : positions.Nodup)
    (hlt : ∀ p ∈ positions, p.col < 4) (hhalf : ∀ col < 4, 2 ≤ positions.countP fun p => p.col = col)
    {cells : List DataCell} (hpositions : cells.map DataCell.position = positions) :
    EnoughOrNone twoAppsGrid.dims cells := by
  refine ⟨hpositions ▸ hnodup, fun col hne => ?_⟩
  obtain ⟨c, hc⟩ := List.exists_mem_of_ne_nil _ hne
  obtain ⟨hc, hcol⟩ := List.mem_filter.mp hc
  have hin : c.position.col < 4 := hlt _ (hpositions ▸ List.mem_map_of_mem hc)
  rw [of_decide_eq_true hcol] at hin
  rw [length_inColumn, hpositions]
  exact hhalf col hin

theorem enoughOrNone_half {cells : List DataCell} (hpositions : cells.map DataCell.position = halfPositions) :
    EnoughOrNone twoAppsGrid.dims cells :=
  enoughOrNone_of_positions (by decide) (by decide) (by decide) hpositions

/-- Every column has a cell. -/
theorem exists_cell_of_positions {κ : Type} {position : κ → Position} {cells : List κ} {positions : List Position}
    (hpositions : cells.map position = positions) {width : ℕ} (hall : ∀ col < width, ∃ p ∈ positions, p.col = col) :
    ∀ col < width, ∃ c ∈ cells, (position c).col = col := by
  intro col hcol
  obtain ⟨p, hp, rfl⟩ := hall col hcol
  obtain ⟨c, hc, rfl⟩ := List.mem_map.mp (hpositions ▸ hp)
  exact ⟨c, hc, rfl⟩

/-- From half of each column, with rows of the data and of the extension. -/
theorem reconstructExtrinsics_sampled_two : ∃ cells : List SingleCell, cells.map SingleCell.position = halfPositions ∧
    (∀ c ∈ cells, Sampled bls12381 (CellScheme.atPoint 5) twoAppsGrid.dims twoAppsCommitments c) ∧
    reconstructExtrinsics bls12381 Runtime.plain scaleAppData twoAppsGrid.lookup twoAppsGrid.dims
      (cells.map SingleCell.toDataCell) = .ok (groupsOf twoApps) := by
  obtain ⟨cells, hpositions, hsampled, hvalue⟩ := @exists_sampled_twoApps halfPositions (by decide)
  have hsome : ∀ col < twoAppsGrid.dims.width, ∃ c ∈ cells, c.position.col = col :=
    exists_cell_of_positions hpositions (show ∀ col < 4, ∃ p ∈ halfPositions, p.col = col by decide)
  have hrun := reconstructExtrinsics_sampled bls12381_hasHalves Runtime.plain scaleAppData _ (CellScheme.atPoint 5)
    (fromExtrinsics_twoApps (List.Vector.replicate 32 0)) extendColumns_twoApps (by decide) commitmentsBytes_twoApps
    (opens_atPoint 5 _) hsampled hsome
  rw [← map_position_toDataCell] at hpositions
  exact ⟨cells, (map_position_toDataCell cells).symm.trans hpositions, hsampled,
    (hrun.resolve_left (not_exists_forged hvalue)).1 (enoughOrNone_half hpositions)⟩

/-- From the cells of its positions, as the extended grid has them, an application is read. -/
theorem exists_decodeAppExtrinsics_published {A : Ark} {K : Codec AppData} {rng : Rng}
    {extrinsics : List AppExtrinsic} {minWidth maxWidth maxHeight : ℕ} {rngSeed : Seed} {g e : EvaluationGrid}
    (hg : EvaluationGrid.fromExtrinsics A K rng extrinsics minWidth maxWidth maxHeight rngSeed = .ok g)
    (he : g.extendColumns A ⟨extensionFactor, by decide⟩ = .ok e) (hlen : g.lookup.len.toNat * chunkSize < 2 ^ 32)
    {id : AppId} (hid : id ∈ extrinsics.map AppExtrinsic.appId) :
    ∃ positions, appSpecificCells g.lookup g.dims id = some positions ∧ positions ≠ [] ∧
      ∀ cells, Mappable g.dims cells → (∀ p ∈ positions, p ∈ cells.map DataCell.position) →
        (∀ c ∈ cells, c.position ∈ positions → e.HasCell A c) →
        decodeAppExtrinsics K g.lookup g.dims cells id = .ok (extrinsicsOf id extrinsics) := by
  obtain ⟨-, hcarries⟩ := EvaluationGrid.carries_of_fromExtrinsics hg
  obtain ⟨-, -, k, short, d, hk, hdom, hcolumns⟩ := hcarries.exists_columnDomains he
  have hgroup : (id, extrinsicsOf id extrinsics) ∈ (chunkedGroups K (groupsOf extrinsics)).map Prod.fst := by
    rw [map_fst_chunkedGroups]
    exact mem_groupsOf hid
  obtain ⟨range, r, hrange, hnonempty, hend, hproject, hrun⟩ := hcarries.exists_range hlen hgroup
  obtain ⟨positions, hpositions, hne, hmem⟩ := exists_appSpecificCells hrange hnonempty hend
  refine ⟨positions, hpositions, hne, fun cells hmap hfound hvalue => ?_⟩
  have hprojected : g.lookup.projectedRangeOf id (UInt32.ofNat chunkSize) = some r := by
    rw [DataLookup.projectedRangeOf, hrange, Option.bind_some, hproject]
  refine decodeAppExtrinsics_eq_ok hpositions hne hmap hfound hprojected ?_
  rw [unflattenRange_extended hdom hk hcolumns hcarries hmap.nodup hproject hend fun i hlo hhi => ?_]
  · exact hrun
  · have hposition := (hmem (g.dims.extendedDataPosition i)).mpr ⟨i, hlo, hhi, rfl⟩
    exact ⟨hfound _ hposition, fun c hc hc' => hvalue c hc (hc' ▸ hposition)⟩

/-- **A client that samples one application gets its extrinsics, or an error**, whoever sent the cells: the
extrinsics when the cells are in distinct positions, with one in each of the application's, and an error else. Or one
of the cells is forged. -/
theorem decodeAppExtrinsics_sampled {A : Ark} (K : Codec AppData) (rng : Rng) (S : CellScheme C P)
    {extrinsics : List AppExtrinsic} {minWidth maxWidth maxHeight : ℕ} {rngSeed : Seed} {g e : EvaluationGrid}
    (hg : EvaluationGrid.fromExtrinsics A K rng extrinsics minWidth maxWidth maxHeight rngSeed = .ok g)
    (he : g.extendColumns A ⟨extensionFactor, by decide⟩ = .ok e) (hlen : g.lookup.len.toNat * chunkSize < 2 ^ 32)
    {commitments : List (List UInt8)} (hcommit : e.commitmentsBytes A S.toCommitter = .ok commitments)
    (hopens : e.Opens A S) {cells : List SingleCell} (hcells : ∀ c ∈ cells, Sampled A S g.dims commitments c)
    {id : AppId} (hid : id ∈ extrinsics.map AppExtrinsic.appId) :
    (∃ c ∈ cells, Forged A S e commitments c) ∨ ∃ positions, appSpecificCells g.lookup g.dims id = some positions ∧
      ((cells.map SingleCell.position).Nodup → (∀ p ∈ positions, p ∈ cells.map SingleCell.position) →
        decodeAppExtrinsics K g.lookup g.dims (cells.map SingleCell.toDataCell) id = .ok (extrinsicsOf id extrinsics)) ∧
      (¬ (cells.map SingleCell.position).Nodup ∨ (∃ p ∈ positions, p ∉ cells.map SingleCell.position) →
        ∃ error, decodeAppExtrinsics K g.lookup g.dims (cells.map SingleCell.toDataCell) id = Run.fail error) := by
  obtain ⟨-, hwidth, -⟩ := exists_columnDomains_of_extendColumns he
  refine (forged_or_hasCell hcommit hopens hwidth hcells).imp_right fun hvalue => ?_
  obtain ⟨positions, hpositions, hne, hdecode⟩ := exists_decodeAppExtrinsics_published hg he hlen hid
  rw [← map_position_toDataCell, ← mappable_iff_nodup he hvalue]
  exact ⟨positions, hpositions, fun hmap hfound => hdecode _ hmap hfound fun c hc _ => hvalue c hc,
    exists_decodeAppExtrinsics_fail hpositions hne⟩

theorem decodeAppExtrinsics_sampled_two : ∃ cells : List SingleCell, cells.map SingleCell.position = longPositions ∧
    (∀ c ∈ cells, Sampled bls12381 (CellScheme.atPoint 5) twoAppsGrid.dims twoAppsCommitments c) ∧
    decodeAppExtrinsics scaleAppData twoAppsGrid.lookup twoAppsGrid.dims (cells.map SingleCell.toDataCell) ⟨2⟩ =
      .ok [List.replicate 100 7] := by
  obtain ⟨cells, hpositions, hsampled, hvalue⟩ := @exists_sampled_twoApps longPositions (by decide)
  have hrun := decodeAppExtrinsics_sampled scaleAppData _ (CellScheme.atPoint 5)
    (fromExtrinsics_twoApps (List.Vector.replicate 32 0)) extendColumns_twoApps (by decide) commitmentsBytes_twoApps
    (opens_atPoint 5 _) hsampled (by decide : (⟨2⟩ : AppId) ∈ twoApps.map AppExtrinsic.appId)
  obtain ⟨positions, hfound, hdecode, -⟩ := hrun.resolve_left (not_exists_forged hvalue)
  obtain rfl : longPositions = positions := Option.some.inj (appSpecificCells_twoApps.symm.trans hfound)
  refine ⟨cells, hpositions, hsampled, hdecode ?_ ?_⟩
  · rw [hpositions]
    decide
  · rw [hpositions]
    exact fun p hp => hp

/-- The columns of a grid that the cells are of, with the bytes of their scalars, and no others. -/
structure HoldsColumns (A : Ark) (g : EvaluationGrid) (cells : List SingleCell)
    (m : Std.ExtHashMap ℕ (List Chunk)) : Prop where
  sampled : ∀ c ∈ cells, ∃ chunks, m[c.position.col]? = some chunks ∧
    List.Forall₂ (fun s b => A.toBytes s = some b) (g.evals.column c.position.col) chunks
  others : ∀ col, (∀ c ∈ cells, c.position.col ≠ col) → m[col]? = none

/-- From cells that the extended grid has, its columns are reconstructed. -/
theorem reconstructColumns_published {A : Ark} (hA : A.HasHalves) (R : Runtime)
    (T : Traversal (ℕ × Std.HashMap ℕ DataCell)) {g e : EvaluationGrid}
    (he : g.extendColumns A ⟨extensionFactor, by decide⟩ = .ok e) {cells : List SingleCell}
    (hvalue : ∀ c ∈ cells.map SingleCell.toDataCell, e.HasCell A c) :
    (EnoughOrNone g.dims (cells.map SingleCell.toDataCell) →
      ∃ m, reconstructColumns A R T g.dims cells = .ok m ∧ HoldsColumns A g cells m) ∧
    (¬ EnoughOrNone g.dims (cells.map SingleCell.toDataCell) →
      ∃ error, reconstructColumns A R T g.dims cells = Run.fail error) := by
  constructor
  · intro henough
    have hmap := (mappable_iff_nodup he hvalue).mpr henough.nodup
    have hcolumn : ∀ col, inColumn (cells.map SingleCell.toDataCell) col ≠ [] →
        columnOf A R g.dims (cells.map SingleCell.toDataCell) col = .ok (g.evals.column col) := by
      intro col hne
      rw [columnOf_published he hvalue R henough.nodup hne, if_pos (henough.enough col hne)]
    obtain ⟨m, hm, hcolumns⟩ := exists_reconstructColumns T hmap fun col hne =>
      exists_chunksOfColumn_iff.mpr ⟨_, hcolumn col hne⟩
    refine ⟨m, hm, fun c hc => ?_, fun col hother => ?_⟩
    · have hne := inColumn_ne_nil_of_sampled ⟨c, hc, rfl⟩
      have hcol := hcolumns c.position.col
      rw [if_neg hne] at hcol
      obtain ⟨chunks, hchunks, hget⟩ := hcol
      rw [chunksOfColumn, hcolumn _ hne, Except.ok_bind, Except.mapM_ok_iff] at hchunks
      exact ⟨chunks, hget, hchunks.imp fun _ _ hb => Run.okOr_eq_ok.mp hb⟩
    · have hnil : inColumn (cells.map SingleCell.toDataCell) col = [] := by
        rw [inColumn, List.filter_eq_nil_iff, List.forall_mem_map]
        exact fun c hc => mt of_decide_eq_true (hother c hc)
      have hcol := hcolumns col
      rwa [if_pos hnil] at hcol
  · intro hfew
    refine (reconstructColumns_returns hA R T g.dims cells).exists_fail fun m hm => hfew ?_
    obtain ⟨hmap, hcolumns⟩ := reconstructColumns_eq_ok_iff.mp hm
    refine (exists_reconstructAvailable_published_iff he hvalue R).mp (exists_reconstructAvailable_iff.mpr ⟨hmap, ?_⟩)
    intro col hne
    have hcol := hcolumns col
    rw [if_neg hne] at hcol
    obtain ⟨chunks, hchunks, -⟩ := hcol
    exact exists_chunksOfColumn_iff.mp ⟨chunks, hchunks⟩

/-- **The columns that a client reconstructs are the published ones**, whoever sent the cells: there are all those
that it has cells of when it has enough of each, in distinct positions, and an error else. Or one of the cells is
forged. -/
theorem reconstructColumns_sampled {A : Ark} (hA : A.HasHalves) (R : Runtime)
    (T : Traversal (ℕ × Std.HashMap ℕ DataCell)) (S : CellScheme C P) {g e : EvaluationGrid}
    (he : g.extendColumns A ⟨extensionFactor, by decide⟩ = .ok e) {commitments : List (List UInt8)}
    (hcommit : e.commitmentsBytes A S.toCommitter = .ok commitments) (hopens : e.Opens A S) {cells : List SingleCell}
    (hcells : ∀ c ∈ cells, Sampled A S g.dims commitments c) :
    (∃ c ∈ cells, Forged A S e commitments c) ∨
    (EnoughOrNone g.dims (cells.map SingleCell.toDataCell) →
      ∃ m, reconstructColumns A R T g.dims cells = .ok m ∧ HoldsColumns A g cells m) ∧
    (¬ EnoughOrNone g.dims (cells.map SingleCell.toDataCell) →
      ∃ error, reconstructColumns A R T g.dims cells = Run.fail error) := by
  obtain ⟨-, hwidth, -⟩ := exists_columnDomains_of_extendColumns he
  exact (forged_or_hasCell hcommit hopens hwidth hcells).imp_right fun hvalue =>
    reconstructColumns_published hA R T he hvalue

theorem reconstructColumns_sampled_two : ∃ (cells : List SingleCell) (m : Std.ExtHashMap ℕ (List Chunk)),
    cells.map SingleCell.position = halfPositions ∧
    (∀ c ∈ cells, Sampled bls12381 (CellScheme.atPoint 5) twoAppsGrid.dims twoAppsCommitments c) ∧
    reconstructColumns bls12381 Runtime.plain (Traversal.plain _) twoAppsGrid.dims cells = .ok m ∧
    HoldsColumns bls12381 twoAppsGrid cells m := by
  obtain ⟨cells, hpositions, hsampled, hvalue⟩ := @exists_sampled_twoApps halfPositions (by decide)
  have hrun := reconstructColumns_sampled bls12381_hasHalves Runtime.plain (Traversal.plain _) (CellScheme.atPoint 5)
    extendColumns_twoApps commitmentsBytes_twoApps (opens_atPoint 5 _) hsampled
  obtain ⟨m, hm, hholds⟩ := (hrun.resolve_left (not_exists_forged hvalue)).1
    (enoughOrNone_half ((map_position_toDataCell cells).trans hpositions))
  exact ⟨cells, m, hpositions, hsampled, hm, hholds⟩

/-! ### Two clients -/

section Agreement

variable {d : Dimensions} {cells cells' : List SingleCell}
  (hdata : ∀ c ∈ cells, ∀ c' ∈ cells', c.position = c'.position → c.data = c'.data)
include hdata

/-- Two clients whose cells agree have the same bytes in a position. -/
theorem chunkIn_eq_of_agree {p : Position} (hp : p ∈ cells.map SingleCell.position)
    (hp' : p ∈ cells'.map SingleCell.position) :
    chunkIn (cells.map SingleCell.toDataCell) p = chunkIn (cells'.map SingleCell.toDataCell) p := by
  have hfound : ∀ cells : List SingleCell, p ∈ cells.map SingleCell.position → ∃ c ∈ cells, c.position = p ∧
      chunkIn (cells.map SingleCell.toDataCell) p = c.data.val := by
    intro cells hp
    rw [← map_position_toDataCell, ← isSome_cellIn] at hp
    obtain ⟨found, hfound⟩ := Option.isSome_iff_exists.mp hp
    have hposition := List.find?_some hfound
    obtain ⟨c, hc, rfl⟩ := List.mem_map.mp (List.mem_of_find?_eq_some hfound)
    exact ⟨c, hc, of_decide_eq_true hposition, by rw [chunkIn, hfound]; rfl⟩
  obtain ⟨c, hc, rfl, hchunk⟩ := hfound cells hp
  obtain ⟨c', hc', hposition, hchunk'⟩ := hfound cells' hp'
  rw [hchunk, hchunk', hdata c hc c' hc' hposition.symm]

/-- What is decoded in their positions is decoded from the same bytes. -/
theorem unflattenRange_eq_of_agree {K : Codec AppData} {index : DataLookup} {id : AppId} {range r : DataLookupRange}
    {positions : List Position} (hrange : index.rangeOf id = some range)
    (hpositions : appSpecificCells index d id = some positions)
    (hproject : range.project (UInt32.ofNat chunkSize) = some r)
    (hfound : ∀ p ∈ positions, p ∈ cells.map SingleCell.position)
    (hfound' : ∀ p ∈ positions, p ∈ cells'.map SingleCell.position) :
    unflattenRange K (dataIn d (cells.map SingleCell.toDataCell)) (id, r) =
      unflattenRange K (dataIn d (cells'.map SingleCell.toDataCell)) (id, r) := by
  obtain ⟨hend, rfl⟩ := (appSpecificCells_eq_some hrange).mp hpositions
  refine (chunksOf_dataIn d _).unflattenRange_congr (chunksOf_dataIn d _) hproject (fun i hlo hhi => ?_) K id
  have hmem : d.extendedDataPosition i ∈ (List.range' range.start.toNat (range.end_.toNat - range.start.toNat)).map
      d.extendedDataPosition := by
    refine List.mem_map_of_mem (List.mem_range'_1.mpr ⟨hlo, ?_⟩)
    omega
  rw [List.getElem?_map, List.getElem?_map, List.getElem?_range (hhi.trans_le hend), Option.map_some, Option.map_some,
    chunkIn_eq_of_agree hdata (hfound _ hmem) (hfound' _ hmem)]

/-- With all of their positions, the two decode alike. -/
theorem decodeAppExtrinsics_eq_of_agree {K : Codec AppData} {index : DataLookup} {id : AppId}
    {positions : List Position} (hpositions : appSpecificCells index d id = some positions) (hne : positions ≠ [])
    (hmap : Mappable d (cells.map SingleCell.toDataCell)) (hmap' : Mappable d (cells'.map SingleCell.toDataCell))
    (hfound : ∀ p ∈ positions, p ∈ cells.map SingleCell.position)
    (hfound' : ∀ p ∈ positions, p ∈ cells'.map SingleCell.position) :
    decodeAppExtrinsics K index d (cells.map SingleCell.toDataCell) id =
      decodeAppExtrinsics K index d (cells'.map SingleCell.toDataCell) id := by
  obtain ⟨range, hrange, -⟩ := Option.bind_eq_some_iff.mp hpositions
  have hchunks := chunksOf_dataIn d (cells.map SingleCell.toDataCell)
  have hchunks' := chunksOf_dataIn d (cells'.map SingleCell.toDataCell)
  rw [← map_position_toDataCell] at hfound hfound'
  rw [decodeAppExtrinsics_of_found hpositions hne hmap hfound,
    decodeAppExtrinsics_of_found hpositions hne hmap' hfound', DataLookup.projectedRangeOf, hrange, Option.bind_some]
  cases hproject : range.project (UInt32.ofNat chunkSize) with
  | none => simp only [Option.map_none, Option.getD_none, unflattenPaddedData, hchunks.length_data, hchunks'.length_data,
      List.mapM_nil]
  | some r =>
    rw [map_position_toDataCell] at hfound hfound'
    rw [Option.map_some, Option.getD_some, hchunks.unflattenPaddedData_singleton,
      hchunks'.unflattenPaddedData_singleton,
      unflattenRange_eq_of_agree hdata hrange hpositions hproject hfound hfound']

/-- Two clients whose cells agree, in the same positions, have the same cells. -/
theorem perm_of_agree (hnodup : (cells.map SingleCell.position).Nodup)
    (hpositions : (cells.map SingleCell.position).Perm (cells'.map SingleCell.position)) :
    (cells.map SingleCell.toDataCell).Perm (cells'.map SingleCell.toDataCell) := by
  have hsub : ∀ {cells cells' : List SingleCell},
      (∀ c ∈ cells, ∀ c' ∈ cells', c.position = c'.position → c.data = c'.data) →
      (∀ p ∈ cells.map SingleCell.position, p ∈ cells'.map SingleCell.position) →
      ∀ c ∈ cells.map SingleCell.toDataCell, c ∈ cells'.map SingleCell.toDataCell := by
    intro cells cells' hdata hsub c hc
    obtain ⟨cell, hcell, rfl⟩ := List.mem_map.mp hc
    obtain ⟨cell', hcell', hposition⟩ := List.mem_map.mp (hsub _ (List.mem_map_of_mem hcell))
    refine List.mem_map.mpr ⟨cell', hcell', ?_⟩
    rw [SingleCell.toDataCell, SingleCell.toDataCell, hposition, hdata cell hcell cell' hcell' hposition.symm]
  have hnodup' := hpositions.nodup_iff.mp hnodup
  rw [← map_position_toDataCell] at hnodup hnodup'
  rw [List.perm_ext_iff_of_nodup hnodup.of_map hnodup'.of_map]
  exact fun c => ⟨hsub hdata (fun p => hpositions.mem_iff.mp) c,
    hsub (fun c hc c' hc' h => (hdata c' hc' c hc h.symm).symm) (fun p => hpositions.mem_iff.mpr) c⟩

end Agreement

/-- **Two clients do not disagree, whoever published the commitments**, or two of their cells contradict each other.
What both decode as the data of an application is the same, whatever other cells they have; and what is reconstructed
from verified cells in the same positions is the same. -/
theorem sampled_agree {A : Ark} {S : CellScheme C P} {d : Dimensions} {commitments : List (List UInt8)}
    (K : Codec AppData) (index : DataLookup) {cells cells' : List SingleCell}
    (hcells : ∀ c ∈ cells, Sampled A S d commitments c) (hcells' : ∀ c ∈ cells', Sampled A S d commitments c) :
    (∃ c ∈ cells, ∃ c' ∈ cells', Contradict A S d commitments c c') ∨
    (∀ id v v', decodeAppExtrinsics K index d (cells.map SingleCell.toDataCell) id = .ok v →
      decodeAppExtrinsics K index d (cells'.map SingleCell.toDataCell) id = .ok v' → v = v') ∧
    ((cells.map SingleCell.position).Nodup →
      (cells.map SingleCell.position).Perm (cells'.map SingleCell.position) →
      ∀ (R R' : Runtime) (T T' : Traversal (ℕ × Std.HashMap ℕ DataCell)),
        (∀ v, reconstructExtrinsics A R K index d (cells.map SingleCell.toDataCell) = .ok v ↔
          reconstructExtrinsics A R' K index d (cells'.map SingleCell.toDataCell) = .ok v) ∧
        (∀ id v, reconstructAppExtrinsics A R K index d (cells.map SingleCell.toDataCell) id = .ok v ↔
          reconstructAppExtrinsics A R' K index d (cells'.map SingleCell.toDataCell) id = .ok v) ∧
        ∀ m, reconstructColumns A R T d cells = .ok m ↔ reconstructColumns A R' T' d cells' = .ok m) := by
  rw [or_iff_not_imp_left]
  intro hnone
  have hdata : ∀ c ∈ cells, ∀ c' ∈ cells', c.position = c'.position → c.data = c'.data := by
    intro c hc c' hc' hposition
    exact (data_eq_or_contradict (hcells c hc) (hcells' c' hc') hposition).resolve_right fun h =>
      hnone ⟨c, hc, c', hc', h⟩
  constructor
  · intro id v v' h h'
    cases hpositions : appSpecificCells index d id with
    | none =>
      simp only [decodeAppExtrinsics, hpositions, Option.getD_none, List.isEmpty_nil, if_true] at h h'
      exact Except.ok.inj (h.symm.trans h')
    | some positions =>
      by_cases hne : positions = []
      · simp only [decodeAppExtrinsics, hpositions, Option.getD_some, hne, List.isEmpty_nil, if_true] at h h'
        exact Except.ok.inj (h.symm.trans h')
      · obtain ⟨hmap, hfound⟩ := found_of_decodeAppExtrinsics hpositions hne h
        obtain ⟨hmap', hfound'⟩ := found_of_decodeAppExtrinsics hpositions hne h'
        rw [map_position_toDataCell] at hfound hfound'
        rw [decodeAppExtrinsics_eq_of_agree hdata hpositions hne hmap hmap' hfound hfound'] at h
        exact Except.ok.inj (h.symm.trans h')
  · intro hnodup hpositions R R' T T'
    have hperm := perm_of_agree hdata hnodup hpositions
    refine ⟨fun v => ?_, fun id v => ?_, fun m => ?_⟩
    · simp only [reconstructExtrinsics, Except.bind_eq_ok, reconstructAvailable_perm A R R' d hperm]
    · simp only [reconstructAppExtrinsics, Except.bind_eq_ok, reconstructAvailable_perm A R R' d hperm]
    · exact reconstructColumns_perm_toDataCell A R R' T T' d hperm

/-- Two clients with all cells of an application, and other cells: of the data, or of the extension. -/
theorem sampled_agree_two : ∃ cells cells' : List SingleCell,
    cells.map SingleCell.position = ⟨0, 0⟩ :: longPositions ∧
    cells'.map SingleCell.position = longPositions ++ [⟨1, 1⟩, ⟨3, 0⟩] ∧
    ∀ v v', decodeAppExtrinsics scaleAppData twoAppsGrid.lookup twoAppsGrid.dims (cells.map SingleCell.toDataCell) ⟨2⟩ =
        .ok v →
      decodeAppExtrinsics scaleAppData twoAppsGrid.lookup twoAppsGrid.dims (cells'.map SingleCell.toDataCell) ⟨2⟩ =
        .ok v' → v = v' := by
  obtain ⟨cells, hpositions, hsampled, hvalue⟩ := @exists_sampled_twoApps (⟨0, 0⟩ :: longPositions) (by decide)
  obtain ⟨cells', hpositions', hsampled', hvalue'⟩ :=
    @exists_sampled_twoApps (longPositions ++ [⟨1, 1⟩, ⟨3, 0⟩]) (by decide)
  have hnone : ¬ ∃ c ∈ cells, ∃ c' ∈ cells',
      Contradict bls12381 (CellScheme.atPoint 5) twoAppsGrid.dims twoAppsCommitments c c' := by
    rintro ⟨c, hc, c', hc', h⟩
    exact not_contradict_of_hasCell (hvalue c hc) (hvalue' c' hc') h
  exact ⟨cells, cells', hpositions, hpositions',
    ((sampled_agree scaleAppData twoAppsGrid.lookup hsampled hsampled').resolve_left hnone).1 ⟨2⟩⟩

end AvailCore
