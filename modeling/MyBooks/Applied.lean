import MyBooks.Payments
import MyBooks.Tally
import MyBooks.WalkValue

/-!
# What an application moves

A row is written, retired or put back together with the move of its invoice's amount paid. So the
amount paid stays the sum of the live rows, one row at a time (`Paid.apply`, `restore_ok`) and over
the loops of the operations (`restoreAll_ok`, `restoreOrStop_ok`). The documents keep every other
column.
-/

namespace MyBooks

variable {strict : Prop}

section Invariants

/-- What the live rows take off an invoice. -/
def paidBy (rows : List AppRow) (i : Id) : Dec :=
  tally (fun r => r.invoiceId = i ∧ r.live) AppRow.settledBy rows

/-- Whole cents, none below zero. -/
structure AppRow.Whole (r : AppRow) : Prop where
  amount : Cents r.amount
  discount : Cents r.discountAmount
  writeOff : Cents r.writeOffAmount
  amount_nonneg : 0 ≤ r.amount
  discount_nonneg : 0 ≤ r.discountAmount
  writeOff_nonneg : 0 ≤ r.writeOffAmount

theorem AppRow.Whole.settledBy {r : AppRow} (h : r.Whole) : Cents r.settledBy :=
  (h.amount.add h.discount).add h.writeOff

theorem AppRow.Whole.settledBy_nonneg {r : AppRow} (h : r.Whole) : 0 ≤ r.settledBy :=
  add_nonneg (add_nonneg h.amount_nonneg h.discount_nonneg) h.writeOff_nonneg

/-- The columns an application moves show `x` as paid; with `strict`, so does the status. -/
structure ArTxn.Shows (strict : Prop) (t : ArTxn) (x : Dec) : Prop where
  paid : t.amountPaid = x
  due : t.balanceDue = t.total - x
  due_of_status : t.status = .posted → 0 < t.total → t.invoiceStatus = some .paid → ¬0 < t.balanceDue
  status : strict → t.status = .posted → 0 < t.total → ¬0 < t.balanceDue →
    t.invoiceStatus = some .paid

/-- The decimals of a total: those of a refund on no credit may be more than the cents. -/
def ArDoc.scale (d : ArDoc) : ℕ :=
  if d.txnType = .customerRefund ∧ d.sourcePaymentId = none then 4 else 2

theorem ArDoc.scale_le_four (d : ArDoc) : d.scale ≤ 4 := by
  unfold ArDoc.scale
  split_ifs <;> omega

theorem ArDoc.scale_eq_two {d : ArDoc} (h : d.txnType = .customerRefund → d.sourcePaymentId ≠ none) :
    d.scale = 2 :=
  if_neg fun hd => h hd.1 hd.2

theorem Places.scaled {x : Dec} (h : Cents x) (d : ArDoc) : Places d.scale x := h.mono (by
  unfold ArDoc.scale
  split_ifs <;> omega)

structure Paid (strict : Prop) (s : Receivables) : Prop where
  cents : ∀ t ∈ s.txns, Places t.toArDoc.scale t.total
  whole : ∀ r ∈ s.rows, r.Whole
  shows : ∀ t ∈ s.txns, t.txnType = .invoice → t.Shows strict (paidBy s.rows t.id)

/-- Every id was given out, and once. -/
structure Keyed (s : Receivables) : Prop where
  docs : (s.docs.map ArDoc.id).Nodup
  rows : (s.rows.map AppRow.id).Nodup
  docIssued : ∀ d ∈ s.docs, ∃ k < s.issued, d.id = s.uuids.gen k
  rowIssued : ∀ r ∈ s.rows, ∃ k < s.issued, r.id = s.uuids.gen k

/-- An operation left the documents `docs` and the rows `rows`, with the invariants. -/
structure Left (strict : Prop) (s : Receivables) (docs : List ArDoc) (rows : List AppRow)
    (s' : Receivables) : Prop where
  docs : s'.docs = docs
  rows : s'.rows = rows
  uuids : s'.uuids = s.uuids
  issued : s.issued ≤ s'.issued
  keyed : Keyed s'
  paid : Paid strict s'

theorem Left.refl {s : Receivables} (hk : Keyed s) (hp : Paid strict s) : Left strict s s.docs s.rows s :=
  ⟨rfl, rfl, rfl, le_refl _, hk, hp⟩

theorem Left.trans {s s' s'' : Receivables} {docs docs' : List ArDoc} {rows rows' : List AppRow}
    (h : Left strict s docs rows s') (h' : Left strict s' docs' rows' s'') : Left strict s docs' rows' s'' :=
  ⟨h'.docs, h'.rows, h'.uuids.trans h.uuids, h.issued.trans h'.issued, h'.keyed, h'.paid⟩

end Invariants

section Frames

variable {s : Receivables}

@[simp] theorem movePaid_doc (t : ArTxn) (delta : Dec) : (t.movePaid delta).toArDoc = t.toArDoc := rfl

@[simp] theorem docs_moveInvoicePaid (i : Id) (delta : Dec) :
    (moveInvoicePaid s i delta).docs = s.docs := by
  unfold moveInvoicePaid Receivables.setTxn Receivables.docs
  rw [List.map_map]
  refine List.map_congr_left fun t _ => ?_
  simp only [Function.comp_apply]
  split_ifs <;> rfl

@[simp] theorem rows_moveInvoicePaid (i : Id) (delta : Dec) :
    (moveInvoicePaid s i delta).rows = s.rows := rfl

@[simp] theorem docs_addRow (r : AppRow) : (s.addRow r).docs = s.docs := rfl
@[simp] theorem rows_addRow (r : AppRow) : (s.addRow r).rows = s.rows ++ [r] := rfl
@[simp] theorem docs_addTxn (t : ArTxn) : (s.addTxn t).docs = s.docs ++ [t.toArDoc] := by
  simp [Receivables.docs, Receivables.addTxn]
@[simp] theorem rows_addTxn (t : ArTxn) : (s.addTxn t).rows = s.rows := rfl

theorem doc?_mem {i : Id} {d : ArDoc} (h : s.doc? i = some d) : d ∈ s.docs ∧ d.id = i :=
  ⟨List.mem_of_find?_eq_some h, by simpa using List.find?_some h⟩

theorem txn?_mem {i : Id} {t : ArTxn} (h : s.txn? i = some t) : t ∈ s.txns ∧ t.id = i :=
  ⟨List.mem_of_find?_eq_some h, by simpa using List.find?_some h⟩

theorem doc_of_txn {t : ArTxn} (h : t ∈ s.txns) : t.toArDoc ∈ s.docs := List.mem_map_of_mem h

theorem mem_liveApplications {p : Id} {r : AppRow} :
    r ∈ liveApplications s p ↔ r ∈ s.rows ∧ r.paymentId = p ∧ r.live := by
  simp [liveApplications]

theorem mem_creditsAppliedIn {p : Id} {r : AppRow} :
    r ∈ creditsAppliedIn s p ↔ r ∈ s.rows ∧ r.appliedInTxnId = some p ∧ r.live := by
  simp [creditsAppliedIn]

end Frames

section Keys

variable {s : Receivables}

theorem Keyed.fresh (h : Keyed s) : (∀ d ∈ s.docs, d.id ≠ s.nextId) ∧ ∀ r ∈ s.rows, r.id ≠ s.nextId := by
  refine ⟨fun d hd he => ?_, fun r hr he => ?_⟩
  · obtain ⟨k, hk, hid⟩ := h.docIssued d hd
    have := s.uuids.inj (hid.symm.trans he)
    omega
  · obtain ⟨k, hk, hid⟩ := h.rowIssued r hr
    have := s.uuids.inj (hid.symm.trans he)
    omega

theorem issued_mono {uuids : Uuids} {n m : ℕ} (hnm : n ≤ m) {i : Id}
    (h : ∃ k < n, i = uuids.gen k) : ∃ k < m, i = uuids.gen k :=
  let ⟨k, hk, hi⟩ := h
  ⟨k, by omega, hi⟩

theorem Keyed.addTxn (h : Keyed s) {t : ArTxn} (ht : t.id = s.nextId) : Keyed (s.addTxn t) where
  docs := by
    rw [docs_addTxn, List.map_append, List.map_singleton]
    refine h.docs.append (List.nodup_singleton _) fun i hi hi' => ?_
    obtain ⟨d, hd, rfl⟩ := List.mem_map.mp hi
    exact h.fresh.1 d hd (by rw [List.mem_singleton.mp hi', ht])
  rows := h.rows
  docIssued := by
    intro d hd
    rw [docs_addTxn, List.mem_append, List.mem_singleton] at hd
    rcases hd with hd | rfl
    · exact issued_mono (by simp [Receivables.addTxn]) (h.docIssued d hd)
    · exact ⟨s.issued, by simp [Receivables.addTxn], ht⟩
  rowIssued := fun r hr => issued_mono (by simp [Receivables.addTxn]) (h.rowIssued r hr)

theorem Keyed.addRow (h : Keyed s) {r : AppRow} (hr : r.id = s.nextId) : Keyed (s.addRow r) where
  docs := h.docs
  rows := by
    rw [rows_addRow, List.map_append, List.map_singleton]
    refine h.rows.append (List.nodup_singleton _) fun i hi hi' => ?_
    obtain ⟨r', hr', rfl⟩ := List.mem_map.mp hi
    exact h.fresh.2 r' hr' (by rw [List.mem_singleton.mp hi', hr])
  docIssued := fun d hd => issued_mono (by simp [Receivables.addRow]) (h.docIssued d hd)
  rowIssued := by
    intro r' hr'
    rw [rows_addRow, List.mem_append, List.mem_singleton] at hr'
    rcases hr' with hr' | rfl
    · exact issued_mono (by simp [Receivables.addRow]) (h.rowIssued r' hr')
    · exact ⟨s.issued, by simp [Receivables.addRow], hr⟩

/-- The keys do not see what else changes. -/
theorem Keyed.of_ids (h : Keyed s) {s' : Receivables} (hu : s'.uuids = s.uuids)
    (hi : s.issued ≤ s'.issued) (hd : s'.docs.map ArDoc.id = s.docs.map ArDoc.id)
    (hr : s'.rows.map AppRow.id = s.rows.map AppRow.id) : Keyed s' where
  docs := by rw [hd]; exact h.docs
  rows := by rw [hr]; exact h.rows
  docIssued := by
    intro d hmem
    have hid : d.id ∈ s.docs.map ArDoc.id := by rw [← hd]; exact List.mem_map_of_mem hmem
    obtain ⟨d', hd', he⟩ := List.mem_map.mp hid
    rw [hu]
    exact issued_mono hi (he ▸ h.docIssued d' hd')
  rowIssued := by
    intro r hmem
    have hid : r.id ∈ s.rows.map AppRow.id := by rw [← hr]; exact List.mem_map_of_mem hmem
    obtain ⟨r', hr', he⟩ := List.mem_map.mp hid
    rw [hu]
    exact issued_mono hi (he ▸ h.rowIssued r' hr')

theorem Keyed.move (h : Keyed s) (i : Id) (delta : Dec) : Keyed (moveInvoicePaid s i delta) :=
  h.of_ids rfl (le_refl _) (by rw [docs_moveInvoicePaid]) rfl

theorem Keyed.eq_of_id (h : Keyed s) {r r' : AppRow} (hr : r ∈ s.rows) (hr' : r' ∈ s.rows)
    (he : r.id = r'.id) : r = r' := List.inj_on_of_nodup_map h.rows hr hr' he

theorem Keyed.doc_eq_of_id (h : Keyed s) {d d' : ArDoc} (hd : d ∈ s.docs) (hd' : d' ∈ s.docs)
    (he : d.id = d'.id) : d = d' := List.inj_on_of_nodup_map h.docs hd hd' he

theorem Keyed.doc? (h : Keyed s) {d : ArDoc} (hd : d ∈ s.docs) : s.doc? d.id = some d := by
  unfold Receivables.doc?
  rcases hf : s.docs.find? (fun d' => d'.id = d.id) with _ | d'
  · have := List.find?_eq_none.mp hf d hd
    simp at this
  · have hmem := List.mem_of_find?_eq_some hf
    have hid : d'.id = d.id := by simpa using List.find?_some hf
    rw [hf, h.doc_eq_of_id hmem hd hid]

end Keys

section Moves

variable {s : Receivables}

theorem paidBy_cents {rows : List AppRow} (h : ∀ r ∈ rows, r.Whole) (i : Id) :
    Cents (paidBy rows i) :=
  Places.sum fun x hx => by
    obtain ⟨r, hr, rfl⟩ := List.mem_map.mp hx
    exact (h r (List.mem_of_mem_filter hr)).settledBy

theorem ArTxn.Shows.move {t : ArTxn} {paid delta : Dec} (h : t.Shows strict paid) (ht : Cents t.total)
    (hp : Cents paid) (hd : Cents delta) : (t.movePaid delta).Shows strict (paid + delta) := by
  have hpaid : Cents (paid + delta) := hp.add hd
  have hdue : Cents (t.total - (paid + delta)) := ht.sub hpaid
  have hbal : (t.movePaid delta).balanceDue = t.total - (paid + delta) := by
    rw [← h.paid] at hdue ⊢
    exact round4_of_cents hdue
  have hround : round2 (round4 (t.total - (t.amountPaid + delta))) =
      (t.movePaid delta).balanceDue := by
    rw [hbal, h.paid, round4_of_cents hdue, round2_of_cents hdue]
  have hstatus : (t.movePaid delta).invoiceStatus = some .paid ↔ ¬0 < (t.movePaid delta).balanceDue := by
    simp only [ArTxn.movePaid] at hround ⊢
    rw [hround]
    split_ifs <;> simp_all
  refine ⟨?_, hbal, fun _ _ => hstatus.mp, fun _ _ _ => hstatus.mpr⟩
  rw [← h.paid] at hpaid ⊢
  exact round4_of_cents hpaid

theorem mem_moveInvoicePaid {i : Id} {delta : Dec} {t' : ArTxn}
    (h : t' ∈ (moveInvoicePaid s i delta).txns) :
    ∃ t ∈ s.txns, t'.toArDoc = t.toArDoc ∧ t' = if t.id = i then t.movePaid delta else t := by
  obtain ⟨t, ht, rfl⟩ := List.mem_map.mp h
  refine ⟨t, ht, ?_, rfl⟩
  split_ifs <;> rfl

/-- Rows and amounts paid move together. -/
theorem Paid.move {s' : Receivables} (h : Paid strict s) {i : Id} {delta : Dec} (ht : s'.txns = s.txns)
    (hw : ∀ r ∈ s'.rows, r.Whole) (hd : Cents delta)
    (hpaid : ∀ j, paidBy s'.rows j = paidBy s.rows j + if j = i then delta else 0) :
    Paid strict (moveInvoicePaid s' i delta) where
  cents := by
    intro t' ht'
    obtain ⟨t, hmem, hdoc, -⟩ := mem_moveInvoicePaid ht'
    rw [hdoc]
    exact h.cents t (ht ▸ hmem)
  whole := hw
  shows := by
    intro t' ht' hinv
    obtain ⟨t, hmem, hdoc, he⟩ := mem_moveInvoicePaid ht'
    rw [ht] at hmem
    have hid : t'.id = t.id := congrArg ArDoc.id hdoc
    have htype : t.txnType = .invoice := by
      rw [← hinv]
      exact (congrArg ArDoc.txnType hdoc).symm
    have hshows := h.shows t hmem htype
    rw [rows_moveInvoicePaid, hid, hpaid]
    split_ifs at he ⊢
    · have hcents := h.cents t hmem
      rw [ArDoc.scale_eq_two (by simp [htype])] at hcents
      rw [he]
      exact hshows.move hcents (paidBy_cents h.whole _) hd
    · rw [he, add_zero]
      exact hshows

theorem paidBy_append (rows rows' : List AppRow) (i : Id) :
    paidBy (rows ++ rows') i = paidBy rows i + paidBy rows' i := tally_append

/-- Writing a row moves its invoice by what it settles. -/
theorem Paid.apply (h : Paid strict s) {r : AppRow} (hr : r.Whole) (hl : r.live) :
    Paid strict (moveInvoicePaid (s.addRow r) r.invoiceId r.settledBy) := by
  refine h.move rfl ?_ hr.settledBy fun j => ?_
  · intro r' hr'
    rw [rows_addRow, List.mem_append, List.mem_singleton] at hr'
    rcases hr' with hr' | rfl
    · exact h.whole r' hr'
    · exact hr
  · rw [rows_addRow, paidBy_append]
    congr 1
    rw [paidBy, tally_cons, tally_nil, add_zero]
    by_cases hj : r.invoiceId = j
    · simp [hj, hl]
    · rw [if_neg (by simp [hj]), if_neg (fun he => hj he.symm)]

end Moves

section Retire

variable {s : Receivables} {set : Retire}

/-- `r` is the row that was read as `a`. -/
structure SameRow (r a : AppRow) : Prop where
  id : r.id = a.id
  invoice : r.invoiceId = a.invoiceId
  settled : r.settledBy = a.settledBy

theorem SameRow.refl (r : AppRow) : SameRow r r := ⟨rfl, rfl, rfl⟩

/-- The live rows among `ids`, retired. -/
def retireIn (set : Retire) (ids : List Id) (rows : List AppRow) : List AppRow :=
  rows.map fun r => if r.id ∈ ids ∧ r.live then r.retire set else r

@[simp] theorem retire_id (r : AppRow) : (r.retire set).id = r.id := by cases set <;> rfl
@[simp] theorem retire_invoiceId (r : AppRow) : (r.retire set).invoiceId = r.invoiceId := by
  cases set <;> rfl
@[simp] theorem retire_paymentId (r : AppRow) : (r.retire set).paymentId = r.paymentId := by
  cases set <;> rfl
@[simp] theorem retire_amount (r : AppRow) : (r.retire set).amount = r.amount := by cases set <;> rfl
@[simp] theorem retire_settledBy (r : AppRow) : (r.retire set).settledBy = r.settledBy := by
  cases set <;> rfl
@[simp] theorem retire_live (r : AppRow) : (r.retire set).live = false := by
  cases set <;> simp [AppRow.retire, AppRow.live]

theorem AppRow.Whole.retire {r : AppRow} (h : r.Whole) : (r.retire set).Whole := by
  cases set <;> exact ⟨h.1, h.2, h.3, h.4, h.5, h.6⟩

@[simp] theorem retireIn_nil (rows : List AppRow) : retireIn set [] rows = rows := by
  simp [retireIn]

theorem retireIn_cons (i : Id) (ids : List Id) (rows : List AppRow) :
    retireIn set (i :: ids) rows = retireIn set ids (retireIn set [i] rows) := by
  unfold retireIn
  rw [List.map_map]
  refine List.map_congr_left fun r _ => ?_
  by_cases hl : r.live
  · by_cases hi : r.id = i
    · simp [hl, hi]
    · simp [hl, hi]
  · simp [hl]

theorem mem_retireIn {ids : List Id} {rows : List AppRow} {r : AppRow} (h : r ∈ rows) :
    (if r.id ∈ ids ∧ r.live then r.retire set else r) ∈ retireIn set ids rows :=
  List.mem_map_of_mem (f := fun r => if r.id ∈ ids ∧ r.live then r.retire set else r) h

theorem retireIn_ids (ids : List Id) (rows : List AppRow) :
    (retireIn set ids rows).map AppRow.id = rows.map AppRow.id := by
  unfold retireIn
  rw [List.map_map]
  refine List.map_congr_left fun r _ => ?_
  simp only [Function.comp_apply]
  split_ifs <;> simp

/-- The row read as `a` is still there, retired or not. -/
theorem sameRow_retireIn {ids : List Id} {rows : List AppRow} {a : AppRow}
    (h : ∃ r ∈ rows, SameRow r a) : ∃ r ∈ retireIn set ids rows, SameRow r a := by
  obtain ⟨r, hr, hs⟩ := h
  refine ⟨_, mem_retireIn hr, ?_⟩
  split_ifs
  · exact ⟨by simp [hs.id], by simp [hs.invoice], by simp [hs.settled]⟩
  · exact hs

theorem retireIn_of_not_live {rows : List AppRow} {i : Id}
    (h : ∀ r ∈ rows, r.id = i → r.live = false) : retireIn set [i] rows = rows := by
  refine (List.map_congr_left fun r hr => if_neg fun hi => ?_).trans (List.map_id' rows)
  have := h r hr (by simpa using hi.1)
  simp [this] at hi

/-- Retiring a live row takes what it settles off its invoice. -/
theorem paidBy_retireIn (hk : Keyed s) {r : AppRow} (hr : r ∈ s.rows) (hl : r.live) (j : Id) :
    paidBy (retireIn set [r.id] s.rows) j =
      paidBy s.rows j + if j = r.invoiceId then -r.settledBy else 0 := by
  have hone : retireIn set [r.id] s.rows =
      s.rows.map fun r' => if r'.id = r.id then r'.retire set else r' := by
    refine List.map_congr_left fun r' hr' => ?_
    by_cases he : r'.id = r.id
    · simp [hk.eq_of_id hr' hr he, hl]
    · simp [he]
  have hmod := tally_modify (p := fun r' : AppRow => decide (r'.invoiceId = j ∧ r'.live))
    (w := AppRow.settledBy) AppRow.id (·.retire set) hk.rows hr
  rw [hone, paidBy, paidBy]
  simp only [retire_live, Bool.false_eq_true, and_false, decide_false, if_false, add_zero] at hmod
  by_cases hj : r.invoiceId = j
  · rw [if_pos (by simp [hj, hl])] at hmod
    rw [if_pos hj.symm]
    linarith
  · rw [if_neg (by simp [hj])] at hmod
    rw [if_neg (fun he => hj he.symm)]
    linarith

theorem retireApplication_some {i : Id} {s' : Receivables}
    (h : retireApplication s i set = some s') :
    (∃ r ∈ s.rows, r.id = i ∧ r.live) ∧ s' = { s with rows := retireIn set [i] s.rows } := by
  unfold retireApplication at h
  split_ifs at h with hany
  refine ⟨by simpa using hany, ?_⟩
  rw [← Option.some.inj h]
  simp [retireIn]

theorem retireApplication_none {i : Id} (h : retireApplication s i set = none) :
    retireIn set [i] s.rows = s.rows := by
  unfold retireApplication at h
  split_ifs at h with hany
  exact retireIn_of_not_live fun r hr hi => by
    by_contra hl
    exact hany (by simpa using ⟨r, hr, hi, by simpa using hl⟩)

/-- Retiring the row read as `a`, with the move of its invoice. -/
theorem Left.retire (hk : Keyed s) (hp : Paid strict s) {a : AppRow} (ha : ∃ r ∈ s.rows, SameRow r a)
    {s' : Receivables} (h : retireApplication s a.id set = some s') :
    Left strict s s.docs (retireIn set [a.id] s.rows) (moveInvoicePaid s' a.invoiceId (-a.settledBy)) := by
  obtain ⟨⟨r, hr, hid, hl⟩, rfl⟩ := retireApplication_some h
  obtain ⟨r', hr', hsame⟩ := ha
  obtain rfl := hk.eq_of_id hr hr' (hid.trans hsame.id.symm)
  refine ⟨docs_moveInvoicePaid _ _, rfl, rfl, le_refl _, ?_, ?_⟩
  · refine Keyed.move (hk.of_ids ?_ ?_ ?_ ?_) _ _
    · rfl
    · exact le_refl _
    · rfl
    · exact retireIn_ids _ _
  · refine hp.move rfl ?_ (hsame.settled ▸ (hp.whole r hr).settledBy.neg) fun j => ?_
    · intro r' hr'
      obtain ⟨r'', hr'', rfl⟩ := List.mem_map.mp hr'
      split_ifs
      · exact (hp.whole r'' hr'').retire
      · exact hp.whole r'' hr''
    · rw [← hsame.id, ← hsame.invoice, ← hsame.settled]
      exact paidBy_retireIn hk hr hl j

theorem restore_ok (hk : Keyed s) (hp : Paid strict s) {a : AppRow} (ha : ∃ r ∈ s.rows, SameRow r a) :
    Left strict s s.docs (retireIn set [a.id] s.rows) (restore set s a) := by
  unfold restore
  rcases h : retireApplication s a.id set with _ | s'
  · simp only [retireApplication_none h]
    exact Left.refl hk hp
  · exact Left.retire hk hp ha h

/-- Rows retired one after the other; those retired before are passed over. -/
theorem restoreAll_ok : ∀ {apps : List AppRow} {s : Receivables}, Keyed s → Paid strict s →
    (∀ a ∈ apps, ∃ r ∈ s.rows, SameRow r a) →
      Left strict s s.docs (retireIn set (apps.map AppRow.id) s.rows) (apps.foldl (restore set) s)
  | [], s, hk, hp, _ => by simpa using Left.refl hk hp
  | a :: apps, s, hk, hp, ha => by
    have h1 : Left strict s _ _ (restore set s a) := restore_ok hk hp (ha a List.mem_cons_self)
    have h2 := restoreAll_ok h1.keyed h1.paid fun a' (ha' : a' ∈ apps) => by
      rw [h1.rows]
      exact sameRow_retireIn (ha a' (List.mem_cons_of_mem _ ha'))
    rw [h1.docs, h1.rows, ← retireIn_cons] at h2
    exact h1.trans h2

/-- The same, when no row may have been retired before. -/
theorem restoreOrStop_ok {paymentId : Id} : ∀ {apps : List AppRow} {s s' : Receivables}, Keyed s →
    Paid strict s → (∀ a ∈ apps, ∃ r ∈ s.rows, SameRow r a) →
      apps.foldlM (restoreOrStop set paymentId) s = .ok s' →
        Left strict s s.docs (retireIn set (apps.map AppRow.id) s.rows) s'
  | [], s, s', hk, hp, _, h => by
    obtain rfl := foldlM_nil_ok.mp h
    simpa using Left.refl hk hp
  | a :: apps, s, s', hk, hp, ha, h => by
    obtain ⟨c, hc, h⟩ := foldlM_cons_ok.mp h
    unfold restoreOrStop at hc
    rcases hr : retireApplication s a.id set with _ | c'
    · simp [hr] at hc
    · simp only [hr, Except.ok.injEq] at hc
      have h1 := Left.retire hk hp (ha a List.mem_cons_self) hr
      rw [hc] at h1
      have h2 := restoreOrStop_ok h1.keyed h1.paid (fun a' ha' => by
        rw [h1.rows]
        exact sameRow_retireIn (ha a' (List.mem_cons_of_mem _ ha'))) h
      rw [h1.docs, h1.rows, ← retireIn_cons] at h2
      exact h1.trans h2

end Retire

end MyBooks
