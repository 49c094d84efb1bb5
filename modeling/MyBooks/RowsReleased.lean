import MyBooks.CheckedBodies

/-!
# Rows taken back and applied again

A void retires the rows of what it voids, of its draws first; the void of a bounce applies again what the
bounce reversed (`reapplyAll_ok`). Voiding payments only takes away (`Shrinks`), and so an edit may rely
on what it read before.
-/

namespace MyBooks

variable {strict : Prop}

section Shrinks

/-- A document that was not added to: void now, or as it was. -/
structure ArDoc.Stays (d d' : ArDoc) : Prop extends SameLinks d d' where
  contactId : d'.contactId = d.contactId
  total : d'.total = d.total
  posted : d'.status = .posted → d' = d

/-- A row that was not added to: retired now, or as it was. -/
def AppRow.Stays (r r' : AppRow) : Prop := r' = r ∨ r.live ∧ r' = r.retire .voided

/-- Documents and rows were only taken away. -/
structure Shrinks (s s' : Receivables) : Prop where
  docs : ∃ F : ArDoc → ArDoc, s'.docs = s.docs.map F ∧ ∀ d ∈ s.docs, d.Stays (F d)
  rows : ∃ G : AppRow → AppRow, s'.rows = s.rows.map G ∧ ∀ r ∈ s.rows, r.Stays (G r)

variable {s s' s'' : Receivables}

theorem ArDoc.Stays.refl (d : ArDoc) : d.Stays d :=
  ⟨⟨rfl, rfl, rfl, rfl, rfl, rfl⟩, rfl, rfl, fun _ => rfl⟩

theorem ArDoc.Stays.trans {d d' d'' : ArDoc} (h : d.Stays d') (h' : d'.Stays d'') : d.Stays d'' where
  id := h'.id.trans h.id
  txnType := h'.txnType.trans h.txnType
  holdsDeposit := h'.holdsDeposit.trans h.holdsDeposit
  fromDepositId := h'.fromDepositId.trans h.fromDepositId
  sourceTxnId := h'.sourceTxnId.trans h.sourceTxnId
  sourcePaymentId := h'.sourcePaymentId.trans h.sourcePaymentId
  contactId := h'.contactId.trans h.contactId
  total := h'.total.trans h.total
  posted := fun hp => by
    have hd := h'.posted hp
    rw [hd] at hp ⊢
    exact h.posted hp

theorem ArDoc.stays_void (d : ArDoc) : d.Stays d.void :=
  ⟨⟨rfl, rfl, rfl, rfl, rfl, rfl⟩, rfl, rfl, fun h => by simp [ArDoc.void] at h⟩

theorem AppRow.Stays.trans {r r' r'' : AppRow} (h : r.Stays r') (h' : r'.Stays r'') :
    r.Stays r'' := by
  rcases h with rfl | ⟨hl, rfl⟩
  · exact h'
  · rcases h' with rfl | ⟨hl', -⟩
    · exact .inr ⟨hl, rfl⟩
    · simp at hl'

theorem AppRow.Stays.sameRow {r r' : AppRow} (h : r.Stays r') : SameRow r' r := by
  rcases h with rfl | ⟨-, rfl⟩
  · exact SameRow.refl _
  · exact ⟨by simp, by simp, by simp⟩

theorem Shrinks.refl (s : Receivables) : Shrinks s s :=
  ⟨⟨id, (List.map_id _).symm, fun d _ => ArDoc.Stays.refl d⟩,
    ⟨id, (List.map_id _).symm, fun _ _ => .inl rfl⟩⟩

theorem Shrinks.trans (h : Shrinks s s') (h' : Shrinks s' s'') : Shrinks s s'' := by
  obtain ⟨⟨F, hF, hFs⟩, G, hG, hGs⟩ := h
  obtain ⟨⟨F', hF', hFs'⟩, G', hG', hGs'⟩ := h'
  refine ⟨⟨F' ∘ F, by rw [hF', hF, List.map_map], fun d hd => ?_⟩,
    ⟨G' ∘ G, by rw [hG', hG, List.map_map], fun r hr => ?_⟩⟩
  · exact (hFs d hd).trans (hFs' _ (hF ▸ List.mem_map_of_mem hd))
  · exact (hGs r hr).trans (hGs' _ (hG ▸ List.mem_map_of_mem hr))

theorem Shrinks.of_doc (h : Shrinks s s') {d : ArDoc} (hd : d ∈ s.docs) :
    ∃ d' ∈ s'.docs, d.Stays d' :=
  let ⟨F, hF, hFs⟩ := h.docs
  ⟨F d, hF ▸ List.mem_map_of_mem hd, hFs d hd⟩

theorem Shrinks.to_doc (h : Shrinks s s') {d' : ArDoc} (hd : d' ∈ s'.docs) :
    ∃ d ∈ s.docs, d.Stays d' := by
  obtain ⟨F, hF, hFs⟩ := h.docs
  rw [hF] at hd
  obtain ⟨d, hmem, rfl⟩ := List.mem_map.mp hd
  exact ⟨d, hmem, hFs d hmem⟩

theorem Shrinks.of_row (h : Shrinks s s') {r : AppRow} (hr : r ∈ s.rows) :
    ∃ r' ∈ s'.rows, r.Stays r' :=
  let ⟨G, hG, hGs⟩ := h.rows
  ⟨G r, hG ▸ List.mem_map_of_mem hr, hGs r hr⟩

theorem Shrinks.to_row (h : Shrinks s s') {r' : AppRow} (hr : r' ∈ s'.rows) :
    ∃ r ∈ s.rows, r.Stays r' := by
  obtain ⟨G, hG, hGs⟩ := h.rows
  rw [hG] at hr
  obtain ⟨r, hmem, rfl⟩ := List.mem_map.mp hr
  exact ⟨r, hmem, hGs r hmem⟩

/-- What is posted after was posted before, so a bounce that was not there is not. -/
theorem Shrinks.liveBounce (h : Shrinks s s') {p : Id} (hb : liveBounce s p = none) :
    liveBounce s' p = none := by
  rw [MyBooks.liveBounce, List.find?_eq_none]
  intro e' he' hbounce
  obtain ⟨e, he, hstays⟩ := h.to_doc he'
  have hposted : e'.status = .posted := by
    have := hbounce
    simp only [ArDoc.bounces, decide_eq_true_eq] at this
    exact this.2.2
  rw [hstays.posted hposted] at hbounce
  exact liveBounce_none hb e he hbounce

theorem shrinks_of_left {ids : List Id}
    (h : Left strict s s.docs (retireIn .voided ids s.rows) s') : Shrinks s s' := by
  refine ⟨⟨id, h.docs.trans (List.map_id _).symm, fun d _ => ArDoc.Stays.refl d⟩, ⟨_, h.rows, ?_⟩⟩
  intro r _
  split_ifs with hc
  · exact .inr ⟨hc.2, rfl⟩
  · exact .inl rfl

end Shrinks

section Void

variable {s s' : Receivables}

theorem docs_setTxn_void (s : Receivables) (i : Id) :
    (s.setTxn i ArTxn.void).docs = voidIn i s.docs := by
  unfold Receivables.setTxn Receivables.docs voidIn
  rw [List.map_map, List.map_map]
  refine List.map_congr_left fun t _ => ?_
  simp only [Function.comp_apply]
  split_ifs <;> rfl

theorem rows_setTxn (s : Receivables) (i : Id) (F : ArTxn → ArTxn) : (s.setTxn i F).rows = s.rows := rfl

theorem shrinks_void (s : Receivables) (i : Id) : Shrinks s (s.setTxn i ArTxn.void) := by
  refine ⟨⟨_, docs_setTxn_void s i, fun d _ => ?_⟩,
    ⟨id, (List.map_id _).symm, fun _ _ => .inl rfl⟩⟩
  split_ifs
  · exact ArDoc.stays_void d
  · exact ArDoc.Stays.refl d

theorem Paid.voidTxn (h : Paid strict s) (i : Id) : Paid strict (s.setTxn i ArTxn.void) where
  cents := by
    intro t' ht'
    obtain ⟨t, ht, rfl⟩ := List.mem_map.mp ht'
    split_ifs <;> exact h.cents t ht
  whole := h.whole
  shows := by
    intro t' ht' hinv
    obtain ⟨t, ht, rfl⟩ := List.mem_map.mp ht'
    split_ifs at hinv ⊢
    · have hshows := h.shows t ht hinv
      exact ⟨hshows.paid, hshows.due, fun hp => by simp [ArTxn.void] at hp,
        fun _ hp => by simp [ArTxn.void] at hp⟩
    · exact h.shows t ht hinv

/-- A document that no row needs any more is voided. -/
theorem Kept.voidTxn (h : Kept strict s 0 0) {i : Id}
    (hstand : ∀ r ∈ s.rows, r.voided = false → r.paymentId ≠ i)
    (hlive : ∀ r ∈ s.rows, r.live → r.invoiceId ≠ i)
    (hrev : ∀ r ∈ s.rows, r.reversedByTxnId ≠ some i) : Kept strict (s.setTxn i ArTxn.void) 0 0 where
  keyed := by
    refine h.keyed.of_ids rfl (le_refl _) ?_ rfl
    rw [docs_setTxn_void, voidIn, List.map_map]
    refine List.map_congr_left fun d _ => ?_
    simp only [Function.comp_apply]
    split_ifs <;> rfl
  paid := h.paid.voidTxn i
  fits := by
    rw [docs_setTxn_void, rows_setTxn]
    exact h.fits.voidDoc hstand hlive hrev

theorem Kept.restoreAll (h : Kept strict s 0 0) {apps : List AppRow}
    (ha : ∀ a ∈ apps, ∃ r ∈ s.rows, SameRow r a) :
    Kept strict (apps.foldl (restore .voided) s) 0 0 ∧
      Left strict s s.docs (retireIn .voided (apps.map AppRow.id) s.rows)
        (apps.foldl (restore .voided) s) := by
  have hleft : Left strict s _ (retireIn .voided _ _) _ := restoreAll_ok h.keyed h.paid ha
  refine ⟨⟨hleft.keyed, hleft.paid, ?_⟩, hleft⟩
  rw [hleft.docs, hleft.rows]
  exact h.fits.retire h.paid.whole fun b hb => by cases hb

/-- No row stands whose payment has had its live rows retired and has not bounced. -/
theorem none_stands (h : Kept strict s 0 0) {p : Id} (hbounce : ∀ b, ¬BouncedBy s.docs p b) {ids : List Id}
    (hids : ∀ r ∈ s.rows, r.paymentId = p → r.live → r.id ∈ ids)
    {r : AppRow} (hr : r ∈ retireIn .voided ids s.rows) (hv : r.voided = false) :
    r.paymentId ≠ p := by
  obtain ⟨r, hmem, rfl⟩ := List.mem_map.mp hr
  split_ifs at hv ⊢ with hc
  · simp [AppRow.retire] at hv
  · rintro rfl
    rcases hrev : r.reversedByTxnId with _ | b
    · have hl : r.live := by simp [AppRow.live, hv, hrev]
      exact hc ⟨hids r hmem rfl hl, hl⟩
    · exact hbounce b (h.fits.reversed r hmem b hrev).2

end Void

section Reapply

variable {s s' : Receivables} {b : Id}

theorem putBackIn_of_none {i : Id} {rows : List AppRow}
    (h : ∀ r ∈ rows, ¬(r.id = i ∧ r.reversedByTxnId = some b ∧ r.voided = false)) :
    putBackIn b i rows = rows :=
  (List.map_congr_left fun r hr => if_neg (h r hr)).trans (List.map_id' rows)

theorem paidBy_putBackIn (hk : Keyed s) {r : AppRow} (hr : r ∈ s.rows) (hb : r.reversedByTxnId = some b)
    (hv : r.voided = false) (j : Id) : paidBy (putBackIn b r.id s.rows) j =
      paidBy s.rows j + if j = r.invoiceId then r.settledBy else 0 := by
  have hone : putBackIn b r.id s.rows =
      s.rows.map fun r' => if r'.id = r.id then { r' with reversedByTxnId := none } else r' := by
    refine List.map_congr_left fun r' hr' => ?_
    by_cases he : r'.id = r.id
    · simp [hk.eq_of_id hr' hr he, hb, hv]
    · simp [he]
  have hmod := tally_modify (p := fun r' : AppRow => decide (r'.invoiceId = j ∧ r'.live))
    (w := AppRow.settledBy) AppRow.id (fun r' => { r' with reversedByTxnId := none }) hk.rows hr
  have hlive : ({ r with reversedByTxnId := none } : AppRow).live := by simp [AppRow.live, hv]
  have hnot : r.live = false := by simp [AppRow.live, hb]
  have hsettled : ({ r with reversedByTxnId := none } : AppRow).settledBy = r.settledBy := rfl
  rw [hone, paidBy, paidBy]
  simp only [hlive, hnot, hsettled, and_true, Bool.false_eq_true, and_false, decide_false, if_false,
    add_zero, decide_eq_true_eq] at hmod
  rw [hmod]
  simp only [eq_comm]

theorem Keyed.putBack (hk : Keyed s) (i : Id) : Keyed { s with rows := putBackIn b i s.rows } := by
  refine hk.of_ids rfl (le_refl _) rfl ?_
  simp only [putBackIn, List.map_map]
  refine List.map_congr_left fun r _ => ?_
  simp only [Function.comp_apply]
  split_ifs <;> rfl

/-- The row read as `a` is applied again if the bounce still holds it. -/
theorem reapplyRow_ok (hs : Kept strict s 0 0) {a : AppRow} (ha : ∃ r ∈ s.rows, SameRow r a)
    (h : reapplyRow b s a = .ok s') :
    Kept strict s' 0 0 ∧ s'.docs = s.docs ∧ s'.rows = putBackIn b a.id s.rows := by
  unfold reapplyRow at h
  rcases hinv : s.txn? a.invoiceId with _ | inv
  · simp [hinv] at h
  · obtain ⟨hmem, hid⟩ := txn?_mem hinv
    simp only [hinv, bind_eq_ok, ensure_ok] at h
    obtain ⟨-, hposted, -, -, -, hroom, h⟩ := h
    obtain ⟨r, hr, hsame⟩ := ha
    split_ifs at h with hany
    · obtain rfl := pure_eq_ok.mp h
      obtain ⟨r', hr', hrid, hrb, hrv⟩ : ∃ r' ∈ s.rows, r'.id = a.id ∧ r'.reversedByTxnId = some b ∧
          r'.voided = false := by simpa using hany
      obtain rfl := hs.keyed.eq_of_id hr hr' (hsame.id.trans hrid.symm)
      have hrows : s.rows.map (fun r => if decide (r.id = a.id ∧ r.reversedByTxnId = some b ∧
          r.voided = false) = true then { r with reversedByTxnId := none } else r) =
            putBackIn b a.id s.rows := by simp [putBackIn]
      have hpaid : ∀ j, paidBy (putBackIn b a.id s.rows) j =
          paidBy s.rows j + if j = a.invoiceId then a.settledBy else 0 := fun j => by
        rw [← hsame.id, ← hsame.invoice, ← hsame.settled]
        exact paidBy_putBackIn hs.keyed hr hrb hrv j
      simp only [hrows]
      refine ⟨⟨(hs.keyed.putBack _).move _ _, ?_, ?_⟩, docs_moveInvoicePaid _ _, rfl⟩
      · refine hs.paid.move rfl (fun r' hr' => ?_) (hsame.settled ▸ (hs.paid.whole r hr).settledBy) hpaid
        obtain ⟨r'', hr'', rfl⟩ := List.mem_map.mp hr'
        have hw := hs.paid.whole r'' hr''
        split_ifs <;> exact ⟨hw.1, hw.2, hw.3, hw.4, hw.5, hw.6⟩
      · rw [docs_moveInvoicePaid, rows_moveInvoicePaid]
        refine hs.fits.putBack (a := a) (fun r' hr' he => ?_) ⟨_, doc_of_txn hmem, hid, hposted⟩
          fun d hd ht => ?_
        · rw [hs.keyed.eq_of_id hr' hr (he.trans hrid.symm), hsame.invoice]
        · rw [hpaid, Pi.zero_apply, add_zero]
          split_ifs with he
          · have hd' : d = inv.toArDoc := hs.doc_eq hd (doc_of_txn hmem) (he.trans hid.symm)
            rw [hd']
            exact hs.payable_room hmem (hd' ▸ ht) hroom
          · have := hs.fits.invoices d hd ht
            simpa using this
    · obtain rfl := pure_eq_ok.mp h
      refine ⟨hs, rfl, (putBackIn_of_none fun r' hr' hc => hany ?_).symm⟩
      simpa using ⟨r', hr', hc⟩

/-- The void of a bounce leaves no row that it reversed. -/
theorem reapplyAll_ok : ∀ {apps : List AppRow} {s s' : Receivables}, Kept strict s 0 0 →
    (∀ a ∈ apps, ∃ r ∈ s.rows, SameRow r a) →
    (∀ r ∈ s.rows, r.reversedByTxnId = some b → r.id ∈ apps.map AppRow.id) →
    apps.foldlM (reapplyRow b) s = .ok s' →
      Kept strict s' 0 0 ∧ s'.docs = s.docs ∧ ∀ r ∈ s'.rows, r.reversedByTxnId ≠ some b
  | [], s, s', hs, _, hrev, h => by
    obtain rfl := foldlM_nil_ok.mp h
    exact ⟨hs, rfl, fun r hr hb => by simpa using hrev r hr hb⟩
  | a :: apps, s, s', hs, ha, hrev, h => by
    obtain ⟨c, hc, h⟩ := foldlM_cons_ok.mp h
    obtain ⟨hkept, hdocs, hrows⟩ := reapplyRow_ok hs (ha a List.mem_cons_self) hc
    have hsame : ∀ a' ∈ apps, ∃ r ∈ c.rows, SameRow r a' := fun a' ha' => by
      obtain ⟨r, hr, h⟩ := ha a' (List.mem_cons_of_mem _ ha')
      rw [hrows]
      refine ⟨_, List.mem_map_of_mem hr, ?_⟩
      split_ifs
      · exact ⟨h.id, h.invoice, h.settled⟩
      · exact h
    have hrest : ∀ r ∈ c.rows, r.reversedByTxnId = some b → r.id ∈ apps.map AppRow.id := by
      intro r' hr' hb
      rw [hrows] at hr'
      obtain ⟨r, hr, rfl⟩ := List.mem_map.mp hr'
      split_ifs at hb ⊢ with hcond
      rcases List.mem_cons.mp (hrev r hr hb) with he | hmem
      · exact absurd ⟨he, hb, (hs.fits.reversed r hr b hb).1⟩ hcond
      · exact hmem
    obtain ⟨hkept', hdocs', hnone⟩ := reapplyAll_ok hkept hsame hrest h
    exact ⟨hkept', hdocs'.trans hdocs, hnone⟩

end Reapply

section Release

variable {s s' : Receivables}

/-- A row that stands is of a payment or credit memo. -/
theorem Kept.type_of_payment {f g : Id → Dec} (h : Kept strict s f g) {d : ArDoc} (hd : d ∈ s.docs)
    {r : AppRow} (hr : r ∈ s.rows) (hv : r.voided = false) (hp : r.paymentId = d.id) :
    d.txnType.isCreditSource := by
  obtain ⟨e, he, t, -, hid, -, hpay⟩ := h.fits.links r hr hv
  rw [← h.doc_eq he hd (hid.trans hp)]
  exact hpay.type

theorem Kept.type_of_invoice {f g : Id → Dec} (h : Kept strict s f g) {d : ArDoc} (hd : d ∈ s.docs)
    {r : AppRow} (hr : r ∈ s.rows) (hl : r.live) (hi : r.invoiceId = d.id) : d.txnType = .invoice := by
  obtain ⟨e, he, t, ht, -, hid, hpay⟩ := h.fits.links r hr (of_decide_eq_true hl).1
  rw [← h.doc_eq ht hd (hid.trans hi)]
  exact hpay.invoice

theorem ArDoc.bounces_type {e : ArDoc} {p : Id} (h : e.bounces p) :
    e.sourceTxnId = some p ∧ e.txnType = .returnedPayment ∧ e.status = .posted := of_decide_eq_true h

theorem Kept.type_of_bounce {f g : Id → Dec} (h : Kept strict s f g) {d : ArDoc} (hd : d ∈ s.docs)
    {r : AppRow} (hr : r ∈ s.rows) (hb : r.reversedByTxnId = some d.id) :
    d.txnType = .returnedPayment := by
  obtain ⟨-, e, he, hid, q, hq, -⟩ := h.fits.reversed r hr _ hb
  rw [← h.doc_eq he hd hid]
  exact (ArDoc.bounces_type hq).2.1

/-- The documents that are no draws are as they were, but for those of `P`. -/
def Spares (P : Id → Prop) (s s' : Receivables) : Prop :=
  ∀ d ∈ s.docs, d.fromDepositId = none → ¬P d.id → d ∈ s'.docs

/-- A void that keeps the store in order. Of a payment it only takes away, and of the other documents
only draws. -/
def VoidsSafely (strict : Prop) (void : Receivables → Id → Except PayError Receivables) : Prop :=
  ∀ ⦃s i s'⦄, Kept strict s 0 0 → void s i = .ok s' →
    Kept strict s' 0 0 ∧ ∀ d ∈ s.docs, d.id = i → d.txnType = .customerPayment →
      Shrinks s s' ∧ Spares (· = i) s s'

variable {void : Receivables → Id → Except PayError Receivables}

/-- The draws made inside a payment are voided, and nothing else. -/
theorem voidInner_ok (hvoid : VoidsSafely strict void) (hs : Kept strict s 0 0) {p : Id}
    (h : (innerDraws s p).foldlM (fun s d => void s d.id) s = .ok s') :
    Kept strict s' 0 0 ∧ Shrinks s s' ∧ Spares (fun _ => False) s s' := by
  refine foldlM_keeps (fun c => Kept strict c 0 0 ∧ Shrinks s c ∧ Spares (fun _ => False) s c)
    (fun d hd c c' hc hstep => ?_) ⟨hs, Shrinks.refl s, fun _ he _ _ => he⟩ h
  obtain ⟨hd, hp⟩ := List.mem_filter.mp hd
  obtain ⟨hsource, htype, -⟩ := of_decide_eq_true hp
  obtain ⟨hkept, hshrinks, hspares⟩ := hc
  obtain ⟨d', hd', hstays⟩ := hshrinks.of_doc hd
  obtain ⟨hkept', hvoided⟩ := hvoid hkept hstep
  obtain ⟨hshrinks', hspares'⟩ := hvoided d' hd' hstays.id (hstays.txnType.trans htype)
  refine ⟨hkept', hshrinks.trans hshrinks', fun e he hown _ => ?_⟩
  refine hspares' e (hspares e he hown not_false) hown fun hid => ?_
  exact (hs.fits.inside d hd htype p hsource).1 (hs.doc_eq he hd hid ▸ hown)

theorem releasePayment_ok (hvoid : VoidsSafely strict void) (hs : Kept strict s 0 0) {payment : ArDoc}
    (hmem : payment ∈ s.docs) (h : releasePayment void s payment = .ok s') :
    Kept strict s' 0 0 ∧ Shrinks s s' ∧ Spares (fun _ => False) s s' ∧
      ∀ r ∈ s'.rows, r.voided = false → r.paymentId ≠ payment.id := by
  unfold releasePayment at h
  simp only [bind_eq_ok, ensure_ok] at h
  obtain ⟨-, hbounce, -, -, -, hdeposit, c, hc, -, -, h⟩ := h
  obtain rfl := pure_eq_ok.mp h
  obtain ⟨hkept, hshrinks, hspares⟩ := voidInner_ok hvoid hs hc
  have hnot : ∀ b, ¬BouncedBy c.docs payment.id b := by
    rintro b ⟨e, he, -, q, hq, rfl | ⟨d', hd', hid, hfrom⟩⟩
    · exact liveBounce_none (hshrinks.liveBounce hbounce) e he hq
    · obtain ⟨d, hd, hstays⟩ := hshrinks.to_doc hd'
      rw [hs.doc_eq hd hmem (hstays.id.symm.trans hid)] at hstays
      have hnone := hdeposit q (hstays.fromDepositId.symm.trans hfrom)
      exact liveBounce_none (hshrinks.liveBounce hnone) e he hq
  have happs : ∀ a ∈ liveApplications c payment.id ++ creditsAppliedIn c payment.id,
      ∃ r ∈ c.rows, SameRow r a := fun a ha => ⟨a, by
    rcases List.mem_append.mp ha with ha | ha
    · exact (mem_liveApplications.mp ha).1
    · exact (mem_creditsAppliedIn.mp ha).1, SameRow.refl a⟩
  obtain ⟨hkept', hleft⟩ := hkept.restoreAll happs
  refine ⟨hkept', hshrinks.trans (shrinks_of_left hleft), fun e he hown hP => ?_, fun r hr hv => ?_⟩
  · rw [hleft.docs]
    exact hspares e he hown hP
  rw [hleft.rows] at hr
  refine none_stands hkept hnot (fun r' hr' hp hl => ?_) hr hv
  exact List.mem_map_of_mem (List.mem_append_left _ (mem_liveApplications.mpr ⟨hr', hp, hl⟩))

theorem releaseCreditMemo_ok (hs : Kept strict s 0 0) {memo : ArDoc} (hmem : memo ∈ s.docs)
    (htype : memo.txnType = .creditMemo) (h : releaseCreditMemo s memo = .ok s') :
    Kept strict s' 0 0 ∧ s'.docs = s.docs ∧ ∀ r ∈ s'.rows, r.voided = false → r.paymentId ≠ memo.id := by
  unfold releaseCreditMemo at h
  simp only [bind_eq_ok, ensure_ok] at h
  obtain ⟨-, -, h⟩ := h
  obtain rfl := pure_eq_ok.mp h
  have hnot : ∀ b, ¬BouncedBy s.docs memo.id b := by
    rintro b ⟨e, he, -, q, hq, rfl | ⟨d', hd', hid, hfrom⟩⟩
    · obtain ⟨hsrc, hret, -⟩ := ArDoc.bounces_type hq
      obtain ⟨d, hd, hid, hpay⟩ := hs.fits.bounced e he hret _ hsrc
      rw [hs.doc_eq hd hmem hid, htype] at hpay
      cases hpay
    · have hpay := (hs.fits.drawn d' hd' q hfrom).1
      rw [hs.doc_eq hd' hmem hid, htype] at hpay
      cases hpay
  have hsame : ∀ a ∈ liveApplications s memo.id, ∃ r ∈ s.rows, SameRow r a := fun a ha =>
    ⟨a, (mem_liveApplications.mp ha).1, SameRow.refl a⟩
  obtain ⟨hkept, hleft⟩ := hs.restoreAll hsame
  refine ⟨hkept, hleft.docs, fun r hr hv => ?_⟩
  rw [hleft.rows] at hr
  refine none_stands hs hnot (fun r' hr' hp hl => ?_) hr hv
  exact List.mem_map_of_mem (mem_liveApplications.mpr ⟨hr', hp, hl⟩)

theorem reapplyBounce_ok (hs : Kept strict s 0 0) {ret : ArDoc} (h : reapplyBounce s ret = .ok s') :
    Kept strict s' 0 0 ∧ s'.docs = s.docs ∧ ∀ r ∈ s'.rows, r.reversedByTxnId ≠ some ret.id := by
  refine reapplyAll_ok hs (fun a ha => ?_) (fun r hr hb => ?_) h
  · obtain ⟨ha, -⟩ := List.mem_filter.mp ((List.mem_insertionSort _).mp ha)
    exact ⟨a, ha, SameRow.refl a⟩
  · refine List.mem_map_of_mem ((List.mem_insertionSort _).mpr (List.mem_filter.mpr ⟨hr, ?_⟩))
    exact decide_eq_true hb

/-- An invoice may be voided that no live row pays. -/
theorem assertInvoiceUnapplied_ok (hs : Kept strict s 0 0) {t : ArDoc} {u : Unit}
    (h : assertInvoiceUnapplied s t = .ok u) (ht : t.txnType = .invoice) :
    ∀ r ∈ s.rows, r.live → r.invoiceId ≠ t.id := by
  intro r hr hl hid
  have hnot := ensure_ok.mp h ht r hr hid hl
  obtain ⟨d, hd, _, -, hdid, -, hpay⟩ := hs.fits.links r hr (of_decide_eq_true hl).1
  rw [← hdid, hs.keyed.doc? hd] at hnot
  simp [hpay.posted] at hnot

theorem voidAt_safe : ∀ (n : ℕ) (companyId : Option Id) (refusal : Except PayError Unit),
    VoidsSafely strict (voidAt companyId refusal n)
  | 0, _, _, _, _, _, _, h => by cases h
  | n + 1, companyId, refusal, s, i, s', hs, h => by
    rw [voidAt] at h
    rcases hdoc : s.doc? i with _ | t
    · simp [hdoc] at h
    · obtain ⟨hmem, rfl⟩ := doc?_mem hdoc
      simp only [hdoc, bind_eq_ok, ensure_ok] at h
      obtain ⟨-, -, -, -, _, hunapplied, -, -, h⟩ := h
      have hsame : ∀ d ∈ s.docs, d.id = t.id → d = t := fun d hd hid => hs.doc_eq hd hmem hid
      split at h
      · rename_i htype
        obtain ⟨c, hc, h⟩ := bind_eq_ok.mp h
        obtain rfl := pure_eq_ok.mp h
        obtain ⟨hkept, hshrinks, hspares, hstand⟩ :=
          releasePayment_ok (voidAt_safe n none refusal) hs hmem hc
        obtain ⟨t', ht', hstays⟩ := hshrinks.of_doc hmem
        have htype' := hstays.txnType.trans htype
        refine ⟨hkept.voidTxn hstand (fun r hr hl hi => ?_) fun r hr hb => ?_,
          fun _ _ _ _ => ⟨hshrinks.trans (shrinks_void _ _), fun e he hown hP => ?_⟩⟩
        · have := hkept.type_of_invoice ht' hr hl (hi.trans hstays.id.symm)
          rw [htype'] at this
          cases this
        · have := hkept.type_of_bounce ht' hr (hb.trans (congrArg some hstays.id.symm))
          rw [htype'] at this
          cases this
        · rw [docs_setTxn_void]
          exact mem_voidIn_of_ne (hspares e he hown not_false) hP
      · rename_i htype
        obtain ⟨c, hc, h⟩ := bind_eq_ok.mp h
        obtain rfl := pure_eq_ok.mp h
        obtain ⟨hkept, hdocs, hstand⟩ := releaseCreditMemo_ok hs hmem htype hc
        have hmem' : t ∈ c.docs := hdocs ▸ hmem
        refine ⟨hkept.voidTxn hstand (fun r hr hl hi => ?_) fun r hr hb => ?_,
          fun d hd hid hpay => ?_⟩
        · have := hkept.type_of_invoice hmem' hr hl hi
          rw [htype] at this
          cases this
        · have := hkept.type_of_bounce hmem' hr hb
          rw [htype] at this
          cases this
        · rw [hsame d hd hid, htype] at hpay
          cases hpay
      · rename_i htype
        obtain ⟨c, hc, h⟩ := bind_eq_ok.mp h
        obtain rfl := pure_eq_ok.mp h
        obtain ⟨hkept, hdocs, hrev⟩ := reapplyBounce_ok hs hc
        have hmem' : t ∈ c.docs := hdocs ▸ hmem
        refine ⟨hkept.voidTxn (fun r hr hv hp => ?_) (fun r hr hl hi => ?_) hrev,
          fun d hd hid hpay => ?_⟩
        · have := hkept.type_of_payment hmem' hr hv hp
          simp [htype, TxnType.isCreditSource] at this
        · have := hkept.type_of_invoice hmem' hr hl hi
          rw [htype] at this
          cases this
        · rw [hsame d hd hid, htype] at hpay
          cases hpay
      · rename_i hnotPayment hnotMemo hnotBounce
        obtain ⟨c, hc, h⟩ := bind_eq_ok.mp h
        obtain rfl := pure_eq_ok.mp h
        obtain rfl := Except.ok.inj hc
        refine ⟨hs.voidTxn (fun r hr hv hp => ?_) (fun r hr hl hi => ?_) fun r hr hb => ?_,
          fun d hd hid hpay => ?_⟩
        · have := hs.type_of_payment hmem hr hv hp
          simp only [TxnType.isCreditSource, decide_eq_true_eq] at this
          exact this.elim hnotPayment hnotMemo
        · exact assertInvoiceUnapplied_ok hs hunapplied (hs.type_of_invoice hmem hr hl hi) r hr hl hi
        · exact hnotBounce (hs.type_of_bounce hmem hr hb)
        · exact absurd (hsame d hd hid ▸ hpay) hnotPayment

end Release

end MyBooks
