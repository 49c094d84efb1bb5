import MyBooks.PaymentsKept
import MyBooks.SalesEdits

/-!
# The receivables over whole runs

Every operation of `salesStep` keeps the store in order, and so does every run of them, in any order and
grouped into units of work in any way: what an invoice shows as paid is what its live rows take off it,
no more than its total, and no credit but a draw on a held one is used past its own
(`receivables_in_order`). That a row has a payment and an invoice of one client, and that an invoice
with nothing due says so, takes runs in which no edit moves the client of an invoice whose payment has
bounced and no paid invoice is sent again (`orderly_in_order`): a void of the bounce applies the payment
again, and does not look at the client.
-/

namespace MyBooks

variable {strict : Prop} {s s' : Receivables} {companyId : Option Id} {facts : PaymentFacts}
  {chart : Chart}

section Edits

theorem getInvoice_ok {invoiceId : Id} {t : ArTxn} (h : getInvoice s invoiceId companyId = .ok t) :
    t ∈ s.txns ∧ t.id = invoiceId ∧ t.txnType = .invoice := by
  unfold getInvoice at h
  rcases ht : s.txn? invoiceId with _ | t'
  · simp [ht] at h
  · simp only [ht, bind_eq_ok, require_ok, pure_eq_ok] at h
    obtain ⟨-, -, -, htype, rfl⟩ := h
    exact ⟨List.mem_of_find?_eq_some ht, by simpa using List.find?_some ht, htype⟩

theorem Kept.txn_eq (h : Kept strict s 0 0) {t t' : ArTxn} (ht : t ∈ s.txns) (ht' : t' ∈ s.txns)
    (hid : t.id = t'.id) : t = t' := by
  have hfind := h.keyed.txn? ht
  rw [hid, h.keyed.txn? ht'] at hfind
  exact (Option.some.inj hfind).symm

theorem Kept.invoice_own (h : Kept strict s 0 0) {d : ArDoc} (hd : d ∈ s.docs)
    (htype : d.txnType ≠ .customerPayment) : d.fromDepositId = none := by
  by_contra hne
  obtain ⟨q, hq⟩ := Option.ne_none_iff_exists'.mp hne
  exact htype (h.fits.drawn d hd q hq).1

/-- Only an invoice has rows that pay it. -/
theorem Kept.invoice_not_payer (h : Kept strict s 0 0) {d : ArDoc} (hd : d ∈ s.docs)
    (htype : d.txnType = .invoice) {r : AppRow} (hr : r ∈ s.rows) (hv : r.voided = false) :
    r.paymentId ≠ d.id := by
  intro hp
  obtain ⟨e, he, _, _, hid, _, hpay⟩ := h.fits.links r hr hv
  have := hpay.type
  rw [h.doc_eq he hd (hid.trans hp), htype] at this
  simp [TxnType.isCreditSource] at this

/-- An edit that leaves an invoice its client, or finds no row of it reversed. -/
def KeepsClient (s : Receivables) (invoiceId contactId : Id) : Prop :=
  ∀ d ∈ s.docs, d.id = invoiceId →
    d.contactId = some contactId ∨ ∀ r ∈ s.rows, r.invoiceId = invoiceId → r.reversedByTxnId = none

instance (s : Receivables) (invoiceId contactId : Id) : Decidable (KeepsClient s invoiceId contactId) :=
  inferInstanceAs (Decidable (∀ d ∈ s.docs, d.id = invoiceId →
    d.contactId = some contactId ∨ ∀ r ∈ s.rows, r.invoiceId = invoiceId → r.reversedByTxnId = none))

theorem updateInvoice_keeps (h : Kept strict s 0 0) {invoiceId contactId : Id} {txnDate : String}
    {lines : List SalesLine} {total : CentAmount}
    (hclient : strict → KeepsClient s invoiceId contactId)
    (hs : updateInvoice chart s invoiceId contactId txnDate lines total companyId facts = .ok s') :
    Kept strict s' 0 0 := by
  unfold updateInvoice at hs
  simp only [bind_eq_ok, require_ok, ofPay_ok, pure_eq_ok] at hs
  obtain ⟨t, ht, -, -, -, hunpaid, _, hallowed, ar, -, -, hbelow, -, -, rfl⟩ := hs
  obtain ⟨hmem, rfl, htype⟩ := getInvoice_ok ht
  have hdoc := doc_of_txn hmem
  have hshown := h.paid.shows t hmem htype
  have hround : round4 total.val = total.val := round4_of_cents total.property
  have hdue : Cents (total.val - t.amountPaid) :=
    total.property.sub (hshown.paid ▸ paidBy_cents h.paid.whole _)
  have hsame : ∀ d ∈ s.docs, d.id = t.id → d = t.toArDoc := fun d hd hid => h.doc_eq hd hdoc hid
  refine h.editTxn (fun _ => rfl) ?_ (fun t' ht' hid _ hshows => ?_) (fun d hd hid => ?_)
    (fun hstrict => ?_) (fun d hd hid _ => ?_) (fun d hd _ => le_refl _) fun d hd hid hcredit => ?_
  · rw [hround]
    exact total.property
  · obtain rfl := h.txn_eq ht' hmem hid
    have hbalance : round4 (total.val - t'.amountPaid) = total.val - t'.amountPaid :=
      round4_of_cents hdue
    have hcents : round2 (total.val - t'.amountPaid) = total.val - t'.amountPaid :=
      round2_of_cents hdue
    refine ⟨hshows.paid, ?_, fun _ hpos hpaid => ?_, fun _ _ hpos hdue' => ?_⟩
    · change round4 (total.val - t'.amountPaid) = round4 total.val - _
      rw [hbalance, hround, hshows.paid]
    · simp only [ArTxn.editInvoice, hbalance, hcents] at hpaid ⊢
      split_ifs at hpaid with hc
      · exact hc.2
      · exact absurd hpaid hunpaid
    · simp only [ArTxn.editInvoice, hbalance, hround, hcents] at hpos hdue' ⊢
      rw [if_pos ⟨by linarith, hdue'⟩]
  · rw [hsame d hd hid]
    exact ⟨by simp [htype], h.invoice_own hdoc (by simp [htype])⟩
  · rcases hclient hstrict _ hdoc rfl with hc | hnone
    · exact .inl fun d hd hid => by rw [hsame d hd hid, hc]
    · unfold assertInvoiceClientChangeAllowed at hallowed
      split_ifs at hallowed with hc
      · exact .inl fun d hd hid => by rw [hsame d hd hid, hc]
      · refine .inr fun r hr hv => ⟨h.invoice_not_payer hdoc htype hr hv, fun hi => ?_⟩
        exact assertInvoiceUnapplied_ok h hallowed htype r hr
          (decide_eq_true ⟨hv, hnone r hr hi⟩) hi
  · rw [hround, Pi.zero_apply, add_zero, ← hshown.paid]
    rcases hbelow with hzero | hle
    · exact le_max_of_le_right (not_lt.mp hzero)
    · exact le_max_of_le_left hle
  · rw [hsame d hd hid, htype] at hcredit
    simp [TxnType.isCreditSource] at hcredit

theorem updateCreditMemoDocument_keeps (h : Kept strict s 0 0) {memoId contactId : Id}
    {txnDate : String} {lines : List SalesLine} {total : CentAmount}
    (hs : updateCreditMemoDocument chart s memoId contactId txnDate lines total companyId facts =
      .ok s') : Kept strict s' 0 0 := by
  unfold updateCreditMemoDocument at hs
  rcases hfind : s.doc? memoId with _ | memo
  · simp [hfind] at hs
  obtain ⟨hmem, rfl⟩ := doc?_mem hfind
  simp only [hfind, bind_eq_ok, require_ok] at hs
  obtain ⟨-, ⟨htype, -⟩, -, -, -, -, -, hcustomer, -, htotal, hs⟩ := hs
  obtain ⟨-, hs⟩ := ite_bind_ok hs
  simp only [bind_eq_ok, ofPay_ok, pure_eq_ok] at hs
  obtain ⟨ar, -, -, -, rfl⟩ := hs
  have hround : round4 total.val = total.val := round4_of_cents total.property
  have hown := h.invoice_own hmem (by simp [htype])
  have hheld : memo.holdsDeposit = false := by
    by_contra hne
    have := h.fits.held memo hmem (by simpa using hne)
    simp [htype] at this
  have hbounce : liveBounce s memo.id = none := by
    refine List.find?_eq_none.mpr fun e he hb => ?_
    obtain ⟨hsrc, hret, -⟩ := ArDoc.bounces_type (by simpa using hb)
    obtain ⟨d, hd, hid, hpay⟩ := h.fits.bounced e he hret _ hsrc
    rw [h.doc_eq hd hmem hid, htype] at hpay
    cases hpay
  have hused := h.usedOf_notHeld hmem hown hbounce hheld
  have hsame : ∀ d ∈ s.docs, d.id = memo.id → d = memo := fun d hd hid => h.doc_eq hd hmem hid
  refine h.editTxn (fun _ => rfl) ?_ (fun t ht hid hinv => ?_) (fun d hd hid => ?_)
    (fun _ => ?_) (fun d hd hid hinv => ?_) (fun d hd _ => le_refl _) fun d hd hid hcredit => ?_
  · rw [hround]
    exact total.property
  · have := hsame _ (doc_of_txn ht) hid
    rw [← this, hinv] at htype
    cases htype
  · rw [hsame d hd hid]
    exact ⟨by simp [htype], hown⟩
  · rcases hcustomer with hzero | hc
    · refine .inr fun r hr hv => ⟨fun hp => hzero ?_, fun hi => ?_⟩
      · have hl := h.live_of_stands hmem hown hbounce hr hp hv
        have hpos := h.fits.memos r hr hv memo hmem hp.symm htype
        have hle := h.amount_le_applied (mem_liveApplications.mpr ⟨hr, hp, hl⟩)
        have hrefunds := h.liveRefundTotal_nonneg memo.id
        linarith
      · obtain ⟨_, _, t, ht, _, hid, hpay⟩ := h.fits.links r hr hv
        have hinv := hpay.invoice
        rw [hsame t ht (hid.trans hi), htype] at hinv
        cases hinv
    · exact .inl fun d hd hid => by rw [hsame d hd hid, hc]
  · rw [hsame d hd hid, htype] at hinv
    cases hinv
  · rw [hused, Pi.zero_apply, add_zero, hround]
    exact le_max_of_le_left htotal

end Edits

section Marks

/-- What marks an invoice leaves its amounts; it may call a paid invoice something else only where
`strict` is not asked for. -/
theorem Kept.mark (h : Kept strict s 0 0) (i : Id) {F : ArTxn → ArTxn}
    (hdoc : ∀ t, (F t).toArDoc = t.toArDoc)
    (hpaid : ∀ t, (F t).amountPaid = t.amountPaid ∧ (F t).balanceDue = t.balanceDue)
    (hstatus : ∀ t, (F t).invoiceStatus = some .paid → t.invoiceStatus = some .paid)
    (hstays : strict → ∀ t ∈ s.txns, t.id = i → t.invoiceStatus = some .paid →
      (F t).invoiceStatus = some .paid) : Kept strict (s.setTxn i F) 0 0 := by
  have hdocs : (s.setTxn i F).docs = s.docs := by
    unfold Receivables.setTxn Receivables.docs
    rw [List.map_map]
    refine List.map_congr_left fun t _ => ?_
    simp only [Function.comp_apply]
    split_ifs
    · exact hdoc t
    · rfl
  refine ⟨h.keyed.of_ids rfl (le_refl _) (by rw [hdocs]) rfl,
    ⟨fun t' ht' => ?_, h.paid.whole, fun t' ht' hinv => ?_⟩, by rw [hdocs]; exact h.fits⟩
  · have hmem : t'.toArDoc ∈ s.docs := hdocs ▸ doc_of_txn ht'
    obtain ⟨t, ht, he⟩ := List.mem_map.mp hmem
    rw [← he]
    exact h.paid.cents t ht
  · obtain ⟨t, ht, rfl⟩ := List.mem_map.mp ht'
    split_ifs at hinv ⊢ with hid
    · rw [hdoc] at hinv
      have hshows := h.paid.shows t ht hinv
      have hpost : (F t).status = t.status ∧ (F t).total = t.total ∧ (F t).id = t.id := by
        simp [hdoc]
      refine ⟨?_, ?_, fun hp hpos hs => ?_, fun hstrict hp hpos hdue => ?_⟩
      · rw [(hpaid t).1, hpost.2.2]
        exact hshows.paid
      · rw [(hpaid t).2, hpost.2.1, hpost.2.2]
        exact hshows.due
      · rw [(hpaid t).2]
        rw [hpost.1] at hp
        rw [hpost.2.1] at hpos
        exact hshows.due_of_status hp hpos (hstatus t hs)
      · rw [hpost.1] at hp
        rw [hpost.2.1] at hpos
        rw [(hpaid t).2] at hdue
        exact hstays hstrict t ht hid (hshows.status hstrict hp hpos hdue)
    · exact h.paid.shows t ht hinv

theorem markAsSent_keeps (h : Kept strict s 0 0) {invoiceId : Id}
    (hs : markAsSent s invoiceId companyId = .ok s') : Kept strict s' 0 0 := by
  unfold markAsSent at hs
  simp only [bind_eq_ok, require_ok, pure_eq_ok] at hs
  obtain ⟨t, ht, -, hdraft, rfl⟩ := hs
  obtain ⟨hmem, rfl, -⟩ := getInvoice_ok ht
  refine h.mark t.id (fun _ => rfl) (fun _ => ⟨rfl, rfl⟩) (fun _ hp => by cases hp)
    fun _ t' ht' hid hp => ?_
  rw [h.txn_eq ht' hmem hid, hdraft] at hp
  cases hp

theorem sendInvoice_keeps (h : Kept strict s 0 0) {invoiceId : Id}
    (hunpaid : strict → ∀ t ∈ s.txns, t.id = invoiceId → t.invoiceStatus ≠ some .paid)
    (hs : sendInvoice s invoiceId companyId = .ok s') : Kept strict s' 0 0 := by
  unfold sendInvoice at hs
  simp only [bind_eq_ok, pure_eq_ok] at hs
  obtain ⟨t, -, rfl⟩ := hs
  exact h.mark invoiceId (fun _ => rfl) (fun _ => ⟨rfl, rfl⟩) (fun _ hp => by cases hp)
    fun hstrict t' ht' hid hp => absurd hp (hunpaid hstrict t' ht' hid)

theorem recordSent_paid (t : ArTxn) :
    t.recordSent.invoiceStatus = some .paid ↔ t.invoiceStatus = some .paid := by
  unfold ArTxn.recordSent
  dsimp only
  split_ifs with hdraft
  · simp [hdraft]
  · rfl

theorem markViewed_paid (t : ArTxn) :
    t.markViewed.invoiceStatus = some .paid ↔ t.invoiceStatus = some .paid := by
  unfold ArTxn.markViewed
  split_ifs with hviewed hsent
  · rfl
  · simp [hsent]
  · rfl

theorem recordInvoiceSent_keeps (h : Kept strict s 0 0) {invoiceId : Id}
    (hs : recordInvoiceSent s invoiceId companyId = .ok s') : Kept strict s' 0 0 := by
  unfold recordInvoiceSent at hs
  simp only [bind_eq_ok, require_ok, pure_eq_ok] at hs
  obtain ⟨t, -, -, -, rfl⟩ := hs
  exact h.mark invoiceId (fun _ => rfl) (fun _ => ⟨rfl, rfl⟩) (fun t => (recordSent_paid t).mp)
    fun _ t _ _ => (recordSent_paid t).mpr

theorem markViewed_keeps (h : Kept strict s 0 0) (txnId : Id) :
    Kept strict (markViewed s txnId) 0 0 := by
  refine h.mark txnId (fun t => ?_) (fun t => ?_) (fun t => (markViewed_paid t).mp)
    fun _ t _ _ => (markViewed_paid t).mpr
  · unfold ArTxn.markViewed
    split_ifs <;> rfl
  · unfold ArTxn.markViewed
    split_ifs <;> exact ⟨rfl, rfl⟩

end Marks

section Run

/-- An edit leaves the client of an invoice with reversed rows, and no paid invoice is sent again. -/
def SalesOp.Orderly (s : Receivables) : SalesOp → Prop
  | .updateInvoice invoiceId contactId _ _ _ _ _ => KeepsClient s invoiceId contactId
  | .sendInvoice invoiceId _ => ∀ t ∈ s.txns, t.id = invoiceId → t.invoiceStatus ≠ some .paid
  | _ => True

instance (s : Receivables) : ∀ op : SalesOp, Decidable (op.Orderly s)
  | .updateInvoice invoiceId contactId _ _ _ _ _ =>
    inferInstanceAs (Decidable (KeepsClient s invoiceId contactId))
  | .sendInvoice invoiceId _ =>
    inferInstanceAs (Decidable (∀ t ∈ s.txns, t.id = invoiceId → t.invoiceStatus ≠ some .paid))
  | .ar _ | .updateCreditMemoDocument .. | .markAsSent .. | .recordInvoiceSent .. | .markViewed _ =>
    inferInstanceAs (Decidable True)

theorem salesStep_keeps {op : SalesOp} (h : Kept strict s 0 0) (horderly : strict → op.Orderly s)
    (hs : salesStep chart s op = .ok s') : Kept strict s' 0 0 := by
  cases op with
  | ar op => exact arStep_keeps h (ofPay_ok.mp hs)
  | updateInvoice => exact updateInvoice_keeps h horderly hs
  | updateCreditMemoDocument => exact updateCreditMemoDocument_keeps h hs
  | markAsSent => exact markAsSent_keeps h hs
  | sendInvoice => exact sendInvoice_keeps h horderly hs
  | recordInvoiceSent => exact recordInvoiceSent_keeps h hs
  | markViewed txnId =>
    obtain rfl := Except.ok.inj hs
    exact markViewed_keeps h txnId

/-- What the tables show of an invoice: its amount paid is what its live rows take off it. -/
structure InvoiceInOrder (s : Receivables) (t : ArTxn) : Prop where
  paid : t.amountPaid =
    ((s.rows.filter fun r => r.invoiceId = t.id ∧ r.live).map AppRow.settledBy).sum
  due : t.balanceDue = t.total - t.amountPaid
  paid_nonneg : 0 ≤ t.amountPaid
  paid_le : t.amountPaid ≤ max t.total 0
  due_of_status : t.status = .posted → 0 < t.total → t.invoiceStatus = some .paid → t.balanceDue = 0

/-- A live row applies a posted payment or memo, not held, to a posted invoice. -/
structure RowInOrder (s : Receivables) (r : AppRow) (d t : ArDoc) : Prop where
  mem : d ∈ s.docs ∧ t ∈ s.docs
  ids : d.id = r.paymentId ∧ t.id = r.invoiceId
  types : d.txnType.isCreditSource ∧ t.txnType = .invoice
  posted : d.status = .posted ∧ t.status = .posted
  notHeld : d.holdsDeposit = false
  amount_nonneg : 0 ≤ r.amount

structure InOrder (s : Receivables) : Prop where
  invoices : ∀ t ∈ s.txns, t.txnType = .invoice → InvoiceInOrder s t
  /-- What is used of a credit that is not itself a draw: by its live rows, its draws and its
  refunds. -/
  credits : ∀ d ∈ s.docs, d.IsCredit →
    ((liveApplications s d.id).map AppRow.amount).sum + ((liveDraws s d.id).map ArDoc.total).sum +
      liveRefundTotal s d.id ≤ max d.total 0
  rows : ∀ r ∈ s.rows, r.live → ∃ d t, RowInOrder s r d t

theorem Kept.invoice_in_order (h : Kept strict s 0 0) {t : ArTxn} (ht : t ∈ s.txns)
    (hinv : t.txnType = .invoice) : InvoiceInOrder s t := by
  have hshows := h.paid.shows t ht hinv
  have hnonneg : 0 ≤ paidBy s.rows t.id :=
    tally_nonneg fun r hr _ => (h.paid.whole r hr).settledBy_nonneg
  have hle : paidBy s.rows t.id ≤ max t.total 0 := by
    simpa using h.fits.invoices _ (doc_of_txn ht) hinv
  refine ⟨hshows.paid, hshows.paid ▸ hshows.due, hshows.paid ▸ hnonneg, hshows.paid ▸ hle,
    fun hp hpos hs => ?_⟩
  have hdue := hshows.due_of_status hp hpos hs
  rw [max_eq_left hpos.le] at hle
  rw [hshows.due] at hdue ⊢
  linarith

/-- The live rows are among those that a credit is used for. -/
theorem Kept.sum_liveApplications_le (h : Kept strict s 0 0) (p : Id) :
    ((liveApplications s p).map AppRow.amount).sum ≤
      tally (fun r => r.paymentId = p ∧ r.voided = false) AppRow.amount s.rows := by
  rw [sum_liveApplications]
  refine tally_mono (w := AppRow.amount) (fun r _ hp => ?_)
    fun r hr _ => (h.paid.whole r hr).amount_nonneg
  simp only [AppRow.live, decide_eq_true_eq] at hp ⊢
  exact ⟨hp.1, by simpa using hp.2.1⟩

theorem Kept.in_order (h : Kept strict s 0 0) : InOrder s where
  invoices := fun _ ht hinv => h.invoice_in_order ht hinv
  credits := by
    intro d hd hc
    have hused := h.fits.credits d hd hc
    rw [Pi.zero_apply, add_zero] at hused
    refine le_trans ?_ hused
    exact add_le_add_left (add_le_add_left (h.sum_liveApplications_le d.id) _) _
  rows := by
    intro r hr hl
    obtain ⟨d, hd, t, ht, hid, hid', hpay⟩ := h.fits.links r hr (of_decide_eq_true hl).1
    obtain ⟨t', ht', hid'', hp⟩ := h.fits.live r hr hl
    rw [h.doc_eq ht' ht (hid''.trans hid'.symm)] at hp
    exact ⟨d, t, ⟨hd, ht⟩, ⟨hid, hid'⟩, ⟨hpay.type, hpay.invoice⟩, ⟨hpay.posted, hp⟩, hpay.notHeld,
      (h.paid.whole r hr).amount_nonneg⟩

def assetAccount (tag : Option SystemTag) : LedgerAccount :=
  { accountType := .asset, detailType := none, systemTag := tag, isActive := true, companyId := none }

/-- Receivables and a bank. -/
def bankChart : Chart where
  accounts a :=
    if a = "ar" then some (assetAccount (some .accountsReceivable))
    else if a = "bank" then some (assetAccount none)
    else none
  system
    | .accountsReceivable => some "ar"
    | _ => none
  tagged tag a h := by
    cases tag <;> simp at h
    subst h
    simp [assetAccount]

/-- Strokes: the first id is empty. -/
def strokeIds : Uuids where
  gen n := String.ofList (List.replicate n 'i')
  inj a b h := by simpa using congrArg String.length h

def quietFacts : PaymentFacts :=
  ⟨⟨none, none⟩, false, fun _ => [], fun _ => none, "cd", none⟩

def hundred : CentAmount := ⟨100, by exact_mod_cast Places.intCast 100⟩

def payHundred (customerId : Id) : ReceivePaymentInput :=
  ⟨customerId, "2026-03-02", 100, "bank", none, [⟨"", 100, none, none, none⟩], none, none, none, false⟩

/-- An invoice moves to another client while its payment has bounced, and is sent when it is paid. -/
def movedRun : List (List SalesOp) :=
  [[.ar (.createInvoice "ann" "2026-03-01" [] hundred none quietFacts)],
    [.ar (.receivePayment (payHundred "ann") none quietFacts)],
    [.ar (.bouncePayment "i" ⟨"2026-03-03", none, none, none, none⟩ none quietFacts)],
    [.updateInvoice "" "bob" "2026-03-01" [] hundred none quietFacts],
    [.ar (.voidTransaction "iii" none quietFacts)],
    [.sendInvoice "" none]]

/-- The draw on a held deposit is refunded while the deposit has bounced, which a void takes back. -/
def drawnRun : List (List SalesOp) :=
  [[.ar (.createInvoice "ann" "2026-03-01" [] hundred none quietFacts)],
    [.ar (.receivePayment ⟨"ann", "2026-03-02", 100, "bank", none, [], none, none, none, true⟩ none
      quietFacts)],
    [.ar (.applyCredit "i" "2026-03-03" [⟨"", some 100, none⟩] none quietFacts)],
    [.ar (.bouncePayment "i" ⟨"2026-03-04", none, none, none, none⟩ none quietFacts)],
    [.ar (.createCustomerRefund ⟨"ann", "2026-03-05", 100, "bank", some "ii"⟩ true none quietFacts)],
    [.ar (.voidTransaction "iiii" none quietFacts)]]

/-- The receivables are in order in every state that a run of the operations reaches, however they are
grouped into units and whichever of them are refused. -/
theorem receivables_in_order (chart : Chart) (uuids : Uuids) (units : List (List SalesOp)) :
    ∀ s ∈ reached (salesStep chart) (Receivables.empty uuids) units, InOrder s := by
  intro s hs
  have hmeets : Meets (salesStep chart) (fun _ _ => True) (Receivables.empty uuids) units :=
    Meets.of_forall (fun _ _ => trivial) _ _
  have hkept : Kept False s 0 0 :=
    reached_keeps (fun _ _ _ h _ hs => salesStep_keeps h False.elim hs) hmeets (kept_empty uuids) s hs
  exact hkept.in_order

theorem receivables_in_order_moved :
    ∃ s ∈ reached (salesStep bankChart) (Receivables.empty strokeIds) movedRun,
      s.rows ≠ [] ∧ InOrder s := by
  obtain ⟨s, hs, hrows⟩ : ∃ s ∈ reached (salesStep bankChart) (Receivables.empty strokeIds) movedRun,
      s.rows ≠ [] := by decide +kernel
  exact ⟨s, hs, hrows, receivables_in_order bankChart strokeIds movedRun s hs⟩

/-- A draw is no credit of its own: all of its 100 are applied, and all are refunded. -/
example : ∃ s ∈ reached (salesStep bankChart) (Receivables.empty strokeIds) drawnRun,
    ∃ d ∈ s.docs, d.fromDepositId = some "i" ∧ d.status = .posted ∧ d.total = 100 ∧
      ((liveApplications s d.id).map AppRow.amount).sum = 100 ∧ liveRefundTotal s d.id = 100 := by
  decide +kernel

/-- A live row has a payment and an invoice of one client. -/
def RowsOfOneClient (s : Receivables) : Prop :=
  ∀ r ∈ s.rows, r.live → ∀ d ∈ s.docs, ∀ t ∈ s.docs, d.id = r.paymentId → t.id = r.invoiceId →
    t.contactId = d.contactId

instance (s : Receivables) : Decidable (RowsOfOneClient s) :=
  inferInstanceAs (Decidable (∀ r ∈ s.rows, r.live → ∀ d ∈ s.docs, ∀ t ∈ s.docs,
    d.id = r.paymentId → t.id = r.invoiceId → t.contactId = d.contactId))

/-- A posted invoice with nothing due is marked as paid. -/
def PaidSaysSo (s : Receivables) : Prop :=
  ∀ t ∈ s.txns, t.txnType = .invoice → t.status = .posted → 0 < t.total → t.balanceDue = 0 →
    t.invoiceStatus = some .paid

instance (s : Receivables) : Decidable (PaidSaysSo s) :=
  inferInstanceAs (Decidable (∀ t ∈ s.txns, t.txnType = .invoice → t.status = .posted → 0 < t.total →
    t.balanceDue = 0 → t.invoiceStatus = some .paid))

theorem orderly_in_order (chart : Chart) (uuids : Uuids) (units : List (List SalesOp))
    (h : Meets (salesStep chart) (fun s op => op.Orderly s) (Receivables.empty uuids) units) :
    ∀ s ∈ reached (salesStep chart) (Receivables.empty uuids) units,
      RowsOfOneClient s ∧ PaidSaysSo s := by
  intro s hs
  have hkept : Kept True s 0 0 :=
    reached_keeps (fun _ _ _ h ho hs => salesStep_keeps h (fun _ => ho) hs) h (kept_empty uuids) s hs
  constructor
  · intro r hr hl d hd t ht hid hid'
    obtain ⟨d', hd', t', ht', hdid, htid, hpay⟩ := hkept.fits.links r hr (of_decide_eq_true hl).1
    rw [hkept.doc_eq hd hd' (hid.trans hdid.symm), hkept.doc_eq ht ht' (hid'.trans htid.symm)]
    exact hpay.customer trivial
  · intro t ht hinv hp hpos hdue
    exact (hkept.paid.shows t ht hinv).status trivial hp hpos (by rw [hdue]; exact lt_irrefl _)

/-- The invoice moves before its payment, which bounces, and does not after all. -/
def bouncedRun : List (List SalesOp) :=
  [[.ar (.createInvoice "ann" "2026-03-01" [] hundred none quietFacts)],
    [.updateInvoice "" "bob" "2026-03-01" [] hundred none quietFacts, .sendInvoice "" none],
    [.ar (.receivePayment (payHundred "bob") none quietFacts)],
    [.ar (.bouncePayment "i" ⟨"2026-03-03", none, none, none, none⟩ none quietFacts)],
    [.ar (.voidTransaction "iii" none quietFacts)]]

theorem orderly_in_order_bounced :
    ∃ s ∈ reached (salesStep bankChart) (Receivables.empty strokeIds) bouncedRun,
      s.rows ≠ [] ∧ RowsOfOneClient s ∧ PaidSaysSo s := by
  obtain ⟨s, hs, hrows⟩ : ∃ s ∈ reached (salesStep bankChart) (Receivables.empty strokeIds) bouncedRun,
      s.rows ≠ [] := by decide +kernel
  exact ⟨s, hs, hrows, orderly_in_order bankChart strokeIds bouncedRun (by decide +kernel) s hs⟩

example : ∃ s ∈ reached (salesStep bankChart) (Receivables.empty strokeIds) movedRun,
    ¬RowsOfOneClient s ∧ ¬PaidSaysSo s := by decide +kernel

end Run

end MyBooks
