import MyBooks.RowsReleased

/-!
# The payments keep the receivables

Each of the operations on payments, credits and their documents keeps the store in order
(`arStep_keeps`): a new document uses what was set aside for it, the rows of a settlement take what its
checks left room for, and an edit gives back what the payment settled before it is checked anew.
-/

namespace MyBooks

variable {strict : Prop}

variable {s s' : Receivables} {companyId : Option Id} {facts : PaymentFacts} {chart : Chart}

section Plain

/-- A document that names no other. -/
structure ArDoc.Plain (d : ArDoc) : Prop where
  fromDepositId : d.fromDepositId = none
  sourcePaymentId : d.sourcePaymentId = none
  sourceTxnId : d.txnType = .customerPayment ∨ d.txnType = .returnedPayment → d.sourceTxnId = none
  notRefund : d.txnType ≠ .customerRefund
  customer : d.txnType.isCreditSource → d.contactId ≠ none
  held : d.holdsDeposit → d.txnType = .customerPayment

theorem ArDoc.Plain.joins {docs : List ArDoc} {d : ArDoc} (h : d.Plain)
    (hfresh : ∀ e ∈ docs, e.id ≠ d.id) : Joins docs d where
  fresh := hfresh
  drawn := fun q hq => by rw [h.fromDepositId] at hq; cases hq
  refunded := fun q hq => by rw [h.sourcePaymentId] at hq; cases hq
  bounced := fun ht q hq => by rw [h.sourceTxnId (.inr ht)] at hq; cases hq
  inside := fun ht q hq => by rw [h.sourceTxnId (.inl ht)] at hq; cases hq
  customer := h.customer
  nonneg := fun ht => ht.elim (fun ht => absurd ht.1 h.notRefund) fun hf => absurd h.fromDepositId hf
  held := h.held

theorem ArDoc.takes_eq_zero {d : ArDoc} (hf : d.fromDepositId = none) (ht : d.txnType ≠ .customerRefund)
    (p : Id) : d.takes p = 0 := by
  simp [ArDoc.takes, ArDoc.refunds, hf, ht]

/-- A plain document is added; something may be set aside of its own. -/
theorem Kept.addPlain (h : Kept strict s 0 0) {t : ArTxn} (hid : t.id = s.nextId) (hcents : Cents t.total)
    (hshows : t.txnType = .invoice → t.Shows strict 0) (hplain : t.toArDoc.Plain) {own : Dec}
    (hown : own ≤ max t.total 0) : Kept strict (s.addTxn t) 0 (only t.id own) := by
  have htakes := ArDoc.takes_eq_zero hplain.fromDepositId hplain.notRefund
  refine h.addTxn hid (hcents.scaled _) hshows (hplain.joins (hid ▸ h.keyed.fresh.1))
    (fun _ => le_max_right _ _) (fun p => ?_) (htakes _) fun _ => by rwa [only_self]
  by_cases hp : p = t.id
  · exact .inr hp
  · exact .inl (by rw [htakes, only_of_ne (Ne.symm hp), add_zero, Pi.zero_apply])

theorem Kept.addPlain' (h : Kept strict s 0 0) {t : ArTxn} (hid : t.id = s.nextId) (hcents : Cents t.total)
    (hshows : t.txnType = .invoice → t.Shows strict 0) (hplain : t.toArDoc.Plain) : Kept strict (s.addTxn t) 0 0 :=
  (h.addPlain hid hcents hshows hplain (le_max_right _ _)).mono (fun _ => le_refl _) fun p => by
    unfold only
    split_ifs <;> exact le_refl _

theorem createInvoice_keeps (h : Kept strict s 0 0) {contactId : Id} {txnDate : String}
    {lines : List SalesLine} {total : CentAmount}
    (hs : createInvoice chart s contactId txnDate lines total companyId facts = .ok s') :
    Kept strict s' 0 0 := by
  unfold createInvoice at hs
  simp only [bind_eq_ok, pure_eq_ok] at hs
  obtain ⟨ar, -, -, -, rfl⟩ := hs
  refine h.addPlain' rfl ?_ (fun _ => ⟨rfl, (sub_zero _).symm, fun _ _ hp => ?_,
    fun _ _ hpos hdue => absurd hpos hdue⟩)
    ⟨rfl, rfl, fun _ => rfl, by simp, by simp [TxnType.isCreditSource], by simp⟩
  · rw [round4_of_cents total.property]
    exact total.property
  · cases hp

end Plain

section Apply

theorem cents_payableCents (t : ArTxn) : Cents (payableCents t) := by
  unfold payableCents
  split_ifs
  · exact Places.zero
  · exact (Cents.round2 _).max Places.zero

/-- One application of credit: what it takes, within the balance and what is left. -/
theorem creditRows_cons_ok {source : ArDoc} {left : Dec} {seen : List Id} {a : CreditApplication}
    {as : List CreditApplication} {rows : List (Id × Dec)} (hleft : Cents left)
    (h : creditRows s source companyId left seen (a :: as) = .ok rows) :
    a.invoiceId ∉ seen ∧ ∃ inv x, InvoiceOk s (source.contactId.getD "") inv ∧
      inv.id = a.invoiceId ∧ Cents x ∧ x ≤ payableCents inv ∧ x ≤ left ∧
      (creditRows s source companyId left (a.invoiceId :: seen) as = .ok rows ∨
        0 < x ∧ ∃ rest, creditRows s source companyId (left - x) (a.invoiceId :: seen) as = .ok rest ∧
          rows = (inv.id, x) :: rest) := by
  rw [creditRows] at h
  split_ifs at h with hseen
  obtain ⟨inv, hinv, h⟩ := bind_eq_ok.mp h
  obtain ⟨hok, hid⟩ := checkInvoice_ok hinv
  obtain ⟨x, hx, hd⟩ : ∃ x, Cents x ∧ (do
      ensure (x ≤ payableCents inv) (.overapplied a.invoiceId x (payableCents inv))
      ensure (x ≤ left) (.creditNotAvailable source.holdsDeposit source.id left)
      if ¬0 < x then creditRows s source companyId left (a.invoiceId :: seen) as
      else
        let rest ← creditRows s source companyId (left - x) (a.invoiceId :: seen) as
        return (inv.id, x) :: rest) = .ok rows := by
    rcases ha : a.amount with _ | amount
    · simp only [ha] at h
      exact ⟨_, hleft.min (cents_payableCents inv), h⟩
    · simp only [ha] at h
      obtain ⟨x, hx, h⟩ := bind_eq_ok.mp h
      exact ⟨x, (wholeCents_ok hx).1, h⟩
  simp only [bind_eq_ok, ensure_ok] at hd
  obtain ⟨-, hcap, -, hle, hd⟩ := hd
  refine ⟨hseen, inv, x, hok, hid, hx, hcap, hle, ?_⟩
  split_ifs at hd with hpos
  · obtain ⟨rest, hrest, hd⟩ := bind_eq_ok.mp hd
    exact .inr ⟨hpos, rest, hrest, (pure_eq_ok.mp hd).symm⟩
  · exact .inl hd

/-- Each row of credit is for an invoice of the customer with room for it, and none twice. -/
theorem creditRows_ok (hk : Keyed s) {source : ArDoc} : ∀ {as : List CreditApplication} {left : Dec}
    {seen : List Id} {rows : List (Id × Dec)}, Cents left → 0 ≤ left →
      creditRows s source companyId left seen as = .ok rows →
      (∀ row ∈ rows, Cents row.2 ∧ 0 < row.2 ∧
        ∃ inv, InvoiceOk s (source.contactId.getD "") inv ∧ inv.id = row.1 ∧ inv.status = .posted) ∧
      (rows.map Prod.snd).sum ≤ left ∧
      ∀ t ∈ s.txns, (rows.map fun row => only row.1 row.2 t.id).sum ≤
        if t.id ∈ seen then 0 else payableCents t
  | [], left, seen, rows, _, h0, h => by
    rw [creditRows] at h
    obtain rfl := Except.ok.inj h
    refine ⟨by simp, h0, fun t _ => ?_⟩
    split_ifs
    · exact le_refl _
    · exact payableCents_nonneg t
  | a :: as, left, seen, rows, hleft, h0, h => by
    obtain ⟨hseen, inv, x, hok, hid, hx, hcap, hle, h | ⟨hpos, rest, hrest, rfl⟩⟩ :=
      creditRows_cons_ok hleft h
    · obtain ⟨hrows, hsum, hroom⟩ := creditRows_ok hk hleft h0 h
      refine ⟨hrows, hsum, fun t ht => (hroom t ht).trans ?_⟩
      split_ifs with h1 h2 h2
      · exact le_refl _
      · exact payableCents_nonneg t
      · exact absurd (List.mem_cons_of_mem _ h2) h1
      · exact le_refl _
    · obtain ⟨hrows, hsum, hroom⟩ := creditRows_ok hk (hleft.sub hx) (by linarith) hrest
      refine ⟨fun row hrow => ?_, ?_, fun t ht => ?_⟩
      · rcases List.mem_cons.mp hrow with rfl | hrow
        · exact ⟨hx, hpos, inv, hok, rfl, payable_posted (hpos.trans_le hcap)⟩
        · exact hrows row hrow
      · rw [List.map_cons, List.sum_cons]
        linarith
      · have hle := hroom t ht
        rw [List.map_cons, List.sum_cons]
        by_cases ht' : t.id = inv.id
        · have ht' : t = inv := by
            have h1 := hk.txn? ht
            have h2 := hk.txn? hok.mem
            rw [ht', h2] at h1
            exact (Option.some.inj h1).symm
          subst ht'
          rw [if_pos (by simp [hid])] at hle
          rw [only_self, if_neg (hid ▸ hseen)]
          linarith
        · rw [only_of_ne (Ne.symm ht'), zero_add]
          refine hle.trans (le_of_eq ?_)
          simp [← hid, ht']

theorem creditRemaining_nonneg (s : Receivables) (d : ArDoc) : 0 ≤ creditRemaining s d := by
  unfold creditRemaining depositRemaining
  split_ifs
  · exact le_refl _
  · exact le_refl _
  · exact le_max_right _ _
  · exact le_max_right _ _

theorem Kept.liveRefundTotal_nonneg (h : Kept strict s 0 0) (p : Id) : 0 ≤ liveRefundTotal s p :=
  List.sum_nonneg fun x hx => by
    obtain ⟨d, hd, rfl⟩ := List.mem_map.mp hx
    obtain ⟨hd, href⟩ := List.mem_filter.mp hd
    obtain ⟨hsource, htype, -⟩ := of_decide_eq_true href
    exact h.fits.nonneg d hd (.inl ⟨htype, by simp [hsource]⟩)

theorem Kept.amount_le_applied (h : Kept strict s 0 0) {p : Id} {r : AppRow}
    (hr : r ∈ liveApplications s p) : r.amount ≤ ((liveApplications s p).map AppRow.amount).sum :=
  List.single_le_sum (fun x hx => by
    obtain ⟨r', hr', rfl⟩ := List.mem_map.mp hx
    exact (h.paid.whole r' (mem_liveApplications.mp hr').1).amount_nonneg) _
    (List.mem_map_of_mem hr)

theorem Kept.cents_total (h : Kept strict s 0 0) {d : ArDoc} (hd : d ∈ s.docs)
    (htype : d.txnType = .customerRefund → d.sourcePaymentId ≠ none) : Cents d.total := by
  obtain ⟨t, ht, rfl⟩ := List.mem_map.mp hd
  have hcents := h.paid.cents t ht
  rwa [ArDoc.scale_eq_two htype] at hcents

theorem cents_creditRemaining (h : Kept strict s 0 0) {d : ArDoc} (hd : d ∈ s.docs)
    (htype : d.txnType.isCreditSource) : Cents (creditRemaining s d) := by
  have hsource : Cents d.total := h.cents_total hd fun hrefund => by
    rw [hrefund] at htype
    cases htype
  have hrefunds : Cents (liveRefundTotal s d.id) := Places.sum fun x hx => by
    obtain ⟨e, he, rfl⟩ := List.mem_map.mp hx
    obtain ⟨he, href⟩ := List.mem_filter.mp he
    exact h.cents_total he fun _ => by simp [(of_decide_eq_true href).1]
  have hdraws : Cents ((liveDraws s d.id).map ArDoc.total).sum := Places.sum fun x hx => by
    obtain ⟨e, he, rfl⟩ := List.mem_map.mp hx
    obtain ⟨he, hdraw⟩ := List.mem_filter.mp he
    have hpay := (h.fits.drawn e he _ (of_decide_eq_true hdraw).1).1
    exact h.cents_total he (by simp [hpay])
  have happlied : Cents ((liveApplications s d.id).map AppRow.amount).sum := Places.sum fun x hx => by
    obtain ⟨r, hr, rfl⟩ := List.mem_map.mp hx
    exact (h.paid.whole r (mem_liveApplications.mp hr).1).amount
  unfold creditRemaining depositRemaining
  split_ifs
  · exact Places.zero
  · exact Places.zero
  · exact ((hsource.sub hdraws).sub hrefunds).max Places.zero
  · exact ((hsource.sub happlied).sub hrefunds).max Places.zero

/-- Credit of a source that may be used is applied. -/
theorem applyCreditInTx_keeps (h : Kept strict s 0 0) {source : ArDoc} (hmem : source ∈ s.docs)
    (htype : source.txnType.isCreditSource) {date : String}
    {applications : List CreditApplication} {withSource : Bool}
    (hs : applyCreditInTx chart s source date applications companyId withSource facts = .ok s') :
    Kept strict s' 0 0 := by
  obtain ⟨rows, hrows, hs⟩ : ∃ rows,
      creditRows s source companyId (creditRemaining s source) [] applications = .ok rows ∧
      (if source.holdsDeposit then
        if rows = [] then pure s
        else do
          let ar ← arAccountId chart
          return postDraw s ar facts companyId source date rows none
      else
        pure (rows.foldl (writeCredit (if withSource then none else some date) none source.id) s)) =
        Except.ok s' := by
    unfold applyCreditInTx at hs
    cases withSource <;> simp only [bind_eq_ok, ensure_ok, Bool.true_eq_false, if_false, if_true] at hs
    · obtain ⟨-, -, -, -, -, -, rows, hrows, hs⟩ := hs
      exact ⟨rows, hrows, hs⟩
    · obtain ⟨-, -, rows, hrows, hs⟩ := hs
      exact ⟨rows, hrows, hs⟩
  obtain ⟨hok, hsum, hroom⟩ := creditRows_ok h.keyed (cents_creditRemaining h hmem htype)
    (creditRemaining_nonneg s source) hrows
  by_cases hnil : rows = []
  · subst hnil
    simp only [if_true, List.foldl_nil, ite_self] at hs
    rwa [← pure_eq_ok.mp hs]
  · have hposted : source.status = .posted := by
      obtain ⟨row, hrow⟩ := List.exists_mem_of_ne_nil rows hnil
      have hle := List.single_le_sum (l := rows.map Prod.snd) (fun x hx => by
        obtain ⟨row, hrow, rfl⟩ := List.mem_map.mp hx
        exact (hok row hrow).2.1.le) _ (List.mem_map_of_mem hrow)
      have hpos := (hok row hrow).2.1
      exact creditRemaining_posted (by linarith)
    have hkept : Kept strict s (fun i => (rows.map fun row => only row.1 row.2 i).sum)
        (only source.id (rows.map Prod.snd).sum) := by
      refine h.reserve (fun d hd hinv => ?_) fun d hd hc => ?_
      · obtain ⟨t, ht, rfl⟩ := List.mem_map.mp hd
        exact h.payable_room ht hinv (by simpa using hroom t ht)
      · by_cases hid : source.id = d.id
        · rw [h.doc_eq hmem hd hid] at hsum ⊢
          rw [only_self]
          exact h.credit_room hd hc hsum
        · rw [only_of_ne hid]
          exact h.fits.credits d hd hc
    have hinvoice : ∀ row ∈ rows, DrawsOn s.docs source row := fun row hrow => by
      obtain ⟨hcents, hpos, inv, hinv, hid, hp⟩ := hok row hrow
      obtain ⟨c, hc⟩ := Option.ne_none_iff_exists'.mp (h.fits.customer source hmem htype)
      refine ⟨hcents, hpos, inv.toArDoc, doc_of_txn hinv.mem, hid, hinv.type, hp, ?_⟩
      rw [hinv.customer, hc]
      rfl
    by_cases hholds : source.holdsDeposit
    · rw [if_pos hholds, if_neg hnil] at hs
      obtain ⟨ar, -, hs⟩ := bind_eq_ok.mp hs
      obtain rfl := pure_eq_ok.mp hs
      exact (writes_draw hmem htype hholds hinvoice (fun p hp => by cases hp) hkept
        (List.Subset.refl _) (fun i => by simp) fun p => by simp).1
    · rw [if_neg hholds] at hs
      obtain rfl := pure_eq_ok.mp hs
      have hwrites : Writes strict s.docs (fun s' =>
          rows.foldl (writeCredit (if withSource then none else some date) none source.id) s') _ _ :=
        Writes.foldl fun row hrow => by
          have hrow := hinvoice row hrow
          obtain ⟨t, ht, hid, hinv, hp, hcustomer⟩ := hrow.invoice
          exact writes_credit hrow.cents hrow.pos ⟨⟨source, hmem, t, ht, rfl, hid, htype, hposted,
            by simpa using hholds, hinv, fun _ => hcustomer⟩, t, ht, hid, hp⟩
      refine (hwrites hkept (List.Subset.refl _) (fun i => by simp) fun p => ?_).1
      beta_reduce
      rw [sum_only, Pi.zero_apply, zero_add]

theorem postedDoc_ok {id : Id} {type : TxnType} {d : ArDoc}
    (h : postedDoc s id type companyId = .ok d) :
    d ∈ s.docs ∧ d.id = id ∧ d.txnType = type ∧ d.status = .posted := by
  unfold postedDoc at h
  rcases hd : s.doc? id with _ | e
  · simp [hd] at h
  · obtain ⟨hmem, hid⟩ := doc?_mem hd
    simp only [hd, bind_eq_ok, ensure_ok, pure_eq_ok] at h
    obtain ⟨-, ⟨htype, -⟩, -, hp, rfl⟩ := h
    exact ⟨hmem, hid, htype, hp⟩

theorem applyCredit_keeps (h : Kept strict s 0 0) {paymentId : Id} {date : String}
    {applications : List CreditApplication}
    (hs : applyCredit chart s paymentId date applications companyId facts = .ok s') :
    Kept strict s' 0 0 := by
  unfold applyCredit at hs
  simp only [bind_eq_ok, ensure_ok] at hs
  obtain ⟨payment, hp, -, -, -, -, -, -, hs⟩ := hs
  obtain ⟨hmem, -, htype, -⟩ := postedDoc_ok hp
  exact applyCreditInTx_keeps h hmem (by simp [htype, TxnType.isCreditSource]) hs

theorem applyCreditMemo_keeps (h : Kept strict s 0 0) {memoId : Id} {date : String}
    {applications : List CreditApplication}
    (hs : applyCreditMemo chart s memoId date applications companyId facts = .ok s') :
    Kept strict s' 0 0 := by
  unfold applyCreditMemo at hs
  simp only [bind_eq_ok] at hs
  obtain ⟨memo, hp, -, -, hs⟩ := hs
  obtain ⟨hmem, -, htype, -⟩ := postedDoc_ok hp
  exact applyCreditInTx_keeps h hmem (by simp [htype, TxnType.isCreditSource]) hs

variable (chart facts) in
/-- A memo that was just posted is applied to the invoices it came with. -/
theorem memo_keeps (h : Kept strict s 0 0) {ar contactId : Id} {txnDate : String} {lines : List SalesLine}
    {total : Dec} (hcents : Cents total) {applications : List CreditApplication}
    (hs : applications = [] ∧ s' = s.addTxn (memoTxn s ar contactId txnDate lines total companyId) ∨
      applyCreditInTx chart (s.addTxn (memoTxn s ar contactId txnDate lines total companyId))
        (memoTxn s ar contactId txnDate lines total companyId).toArDoc txnDate applications companyId
        true facts = .ok s') : Kept strict s' 0 0 := by
  have hkept : Kept strict (s.addTxn (memoTxn s ar contactId txnDate lines total companyId)) 0 0 := by
    refine h.addPlain' rfl ?_ (fun ht => by cases ht) ⟨rfl, rfl, fun _ => rfl, by simp [memoTxn],
      by simp [memoTxn], by simp [memoTxn]⟩
    simp only [memoTxn, round4_of_cents hcents]
    exact hcents
  rcases hs with ⟨-, rfl⟩ | hs
  · exact hkept
  · exact applyCreditInTx_keeps hkept (by simp) rfl hs

theorem createCreditMemoDocument_keeps (h : Kept strict s 0 0) {contactId : Id} {txnDate : String}
    {lines : List SalesLine} {total : CentAmount} {applications : List CreditApplication}
    (hs : createCreditMemoDocument chart s contactId txnDate lines total applications companyId facts =
      .ok s') : Kept strict s' 0 0 := by
  unfold createCreditMemoDocument at hs
  simp only [bind_eq_ok, ensure_ok] at hs
  obtain ⟨-, -, ar, -, -, -, hs⟩ := hs
  split_ifs at hs with hnil
  · exact memo_keeps facts chart h total.property (.inl ⟨hnil, (pure_eq_ok.mp hs).symm⟩)
  · exact memo_keeps facts chart h total.property (.inr hs)

theorem createCreditMemo_keeps (h : Kept strict s 0 0) {contactId : Id} {txnDate : String}
    {lines : List CreditMemoLine} {appliedToInvoiceId : Option Id}
    (hs : createCreditMemo chart s contactId txnDate lines appliedToInvoiceId companyId facts = .ok s') :
    Kept strict s' 0 0 := by
  have hcents : Cents ((lines.map CreditMemoLine.sales).map SalesLine.amount).sum :=
    Places.sum fun x hx => by
      obtain ⟨l, hl, rfl⟩ := List.mem_map.mp hx
      obtain ⟨l, -, rfl⟩ := List.mem_map.mp hl
      exact Cents.round2 _
  unfold createCreditMemo at hs
  simp only [bind_eq_ok] at hs
  obtain ⟨ar, -, -, -, hs⟩ := hs
  rcases appliedToInvoiceId with _ | invoiceId
  · exact memo_keeps facts chart h hcents (.inl ⟨rfl, (pure_eq_ok.mp hs).symm⟩)
  · simp only [] at hs
    split_ifs at hs
    · exact memo_keeps facts chart h hcents (.inr hs)
    · exact memo_keeps facts chart h hcents (.inl ⟨rfl, (pure_eq_ok.mp hs).symm⟩)

/-- Rows that may each be retired once are retired, by a void or by a bounce. -/
theorem Kept.restoreOrStop {f g : Id → Dec} (h : Kept strict s f g) {set : Retire} {paymentId : Id}
    {apps : List AppRow} (ha : ∀ a ∈ apps, ∃ r ∈ s.rows, SameRow r a)
    (hrev : ∀ b, set = .reversed b → ∀ a ∈ apps, ∀ r ∈ s.rows, a.id = r.id →
      BouncedBy s.docs r.paymentId b)
    (hs : apps.foldlM (restoreOrStop set paymentId) s = .ok s') :
    Kept strict s' f g ∧ Left strict s s.docs (retireIn set (apps.map AppRow.id) s.rows) s' := by
  have hleft := restoreOrStop_ok h.keyed h.paid ha hs
  refine ⟨⟨hleft.keyed, hleft.paid, ?_⟩, hleft⟩
  rw [hleft.docs, hleft.rows]
  refine h.fits.retire h.paid.whole fun b hb r hr hid _ => ?_
  obtain ⟨a, hmem, he⟩ := List.mem_map.mp hid
  exact hrev b hb a hmem r hr he

theorem restoreOrStop_keeps (h : Kept strict s 0 0) {paymentId : Id} {a : AppRow} (ha : a ∈ s.rows)
    (hs : restoreOrStop .voided paymentId s a = .ok s') : Kept strict s' 0 0 := by
  have hs' : [a].foldlM (restoreOrStop .voided paymentId) s = .ok s' :=
    foldlM_cons_ok.mpr ⟨s', hs, foldlM_nil_ok.mpr rfl⟩
  refine (h.restoreOrStop (fun a' ha' => ?_) (fun b hb => by cases hb) hs').1
  exact ⟨a', List.mem_singleton.mp ha' ▸ ha, SameRow.refl a'⟩

theorem unapplyPayment_keeps (h : Kept strict s 0 0) {paymentId invoiceId : Id}
    (hs : unapplyPayment s paymentId invoiceId companyId facts = .ok s') : Kept strict s' 0 0 := by
  unfold unapplyPayment at hs
  simp only [bind_eq_ok, ensure_ok] at hs
  obtain ⟨payment, -, -, -, hs⟩ := hs
  split at hs
  · cases hs
  · split at hs
    · cases hs
    · rename_i app happ
      simp only [bind_eq_ok] at hs
      obtain ⟨-, -, -, -, hs⟩ := hs
      exact restoreOrStop_keeps h (mem_liveApplications.mp (List.mem_of_find?_eq_some happ)).1 hs

theorem unapplyCreditMemo_keeps (h : Kept strict s 0 0) {memoId invoiceId : Id}
    (hs : unapplyCreditMemo s memoId invoiceId companyId facts = .ok s') : Kept strict s' 0 0 := by
  unfold unapplyCreditMemo at hs
  simp only [bind_eq_ok] at hs
  obtain ⟨memo, -, hs⟩ := hs
  split at hs
  · cases hs
  · rename_i app happ
    simp only [bind_eq_ok] at hs
    obtain ⟨-, -, hs⟩ := hs
    exact restoreOrStop_keeps h (mem_liveApplications.mp (List.mem_of_find?_eq_some happ)).1 hs

/-- A refund with a source is within what is left of it. -/
theorem refundDebit_ok {ar debit sourceId : Id} {input : RefundInput}
    (hsource : input.sourceId = some sourceId)
    (hs : refundDebit s ar input companyId facts = .ok debit) :
    ∃ src ∈ s.docs, src.id = sourceId ∧ input.amount ≤ creditRemaining s src := by
  unfold refundDebit at hs
  rw [hsource] at hs
  rcases hd : s.doc? sourceId with _ | src
  · simp [hd] at hs
  · obtain ⟨hmem, hid⟩ := doc?_mem hd
    simp only [hd, bind_eq_ok, ensure_ok] at hs
    obtain ⟨-, -, -, -, -, -, -, -, -, hle, -⟩ := hs
    exact ⟨src, hmem, hid, hle⟩

theorem createCustomerRefund_keeps (h : Kept strict s 0 0) {input : RefundInput}
    {strictAccount : Bool}
    (hs : createCustomerRefund chart s input strictAccount companyId facts = .ok s') :
    Kept strict s' 0 0 := by
  unfold createCustomerRefund at hs
  simp only [bind_eq_ok, ensure_ok] at hs
  obtain ⟨ar, -, -, hamount, debit, hdebit, -, -, hs⟩ := hs
  obtain rfl := pure_eq_ok.mp hs
  have hfresh := h.keyed.fresh.1
  rcases hsource : input.sourceId with _ | sourceId
  · -- a refund without a source uses nothing, whatever its amount
    refine h.addTxn rfl (places_toPlaces 4 _) (fun ht => by cases ht)
      ⟨hfresh, fun _ hq => (by cases hq), fun p hp => (by cases hp), fun ht => (by cases ht),
        fun ht => (by cases ht), fun ht => (by cases ht),
        fun hu => hu.elim (fun hu => absurd rfl hu.2) fun hu => absurd rfl hu,
        fun hh => (by cases hh)⟩
      (fun ht => by cases ht) (fun p => .inl ?_) ?_ fun hc => by cases hc.type
    · simp [ArDoc.takes, ArDoc.refunds]
    · simp [ArDoc.takes, ArDoc.refunds]
  · obtain ⟨hwhole, hpos⟩ := hamount (.inl (by rw [hsource]; rfl))
    have hcents : Cents input.amount := hwhole ▸ Cents.round2 _
    rw [round4_of_cents hcents]
    obtain ⟨src, hmem, rfl, hle⟩ := refundDebit_ok hsource hdebit
    have hkept : Kept strict s 0 (only src.id input.amount) := h.reserve
      (fun d hd hinv => h.fits.invoices d hd hinv) fun d hd hc => by
        by_cases he : src.id = d.id
        · rw [h.doc_eq hmem hd he] at hle ⊢
          rw [only_self]
          exact h.credit_room hd hc hle
        · rw [only_of_ne he]
          exact h.fits.credits d hd hc
    have htakes : ∀ (d : ArDoc), d.txnType = .customerRefund → d.status = .posted →
        d.fromDepositId = none → d.sourcePaymentId = some src.id → d.total = input.amount →
        ∀ p, d.takes p = only src.id input.amount p := fun d h1 h2 h3 h4 h5 p => by
      simp [ArDoc.takes, ArDoc.refunds, h1, h2, h3, h4, h5, only]
    refine hkept.addTxn rfl (hcents.scaled _) (fun ht => by cases ht)
      ⟨hfresh, fun _ hq => (by cases hq), fun p hp => ⟨src, hmem, Option.some.inj hp⟩,
        fun ht => (by cases ht), fun ht => (by cases ht), fun ht => (by cases ht), fun _ => hpos.le,
        fun hh => (by cases hh)⟩
      (fun ht => by cases ht) (fun p => .inl ?_) ?_ fun hc => by cases hc.type
    · rw [htakes _ rfl rfl rfl rfl rfl, Pi.zero_apply, zero_add]
    · rw [htakes _ rfl rfl rfl rfl rfl]
      exact only_of_ne (hfresh src hmem) _

end Apply

section Bounce

theorem bounceFee_cents {held : Id} {input : BounceInput} {fee : BankFee}
    (h : bounceFee chart held companyId input = .ok (some fee)) : Cents fee.amount := by
  unfold bounceFee at h
  obtain ⟨x, hx, h⟩ := bind_eq_ok.mp h
  split_ifs at h
  · split at h
    · cases h
    · obtain ⟨bank, -, h⟩ := bind_eq_ok.mp h
      obtain ⟨-, -, h⟩ := bind_eq_ok.mp h
      obtain rfl := Option.some.inj (pure_eq_ok.mp h)
      exact (wholeCents_ok hx).1
  · cases pure_eq_ok.mp h

theorem mem_bouncedApps {payment : ArDoc} {a : AppRow} (h : a ∈ bouncedApps s payment) :
    a ∈ s.rows ∧ (payment.id = a.paymentId ∨
      ∃ d ∈ s.docs, d.id = a.paymentId ∧ d.fromDepositId = some payment.id) := by
  unfold bouncedApps at h
  split_ifs at h
  · obtain ⟨d, hd, ha⟩ := List.mem_flatMap.mp h
    obtain ⟨hmem, hdraw⟩ := List.mem_filter.mp hd
    obtain ⟨ha, hp, -⟩ := mem_liveApplications.mp ha
    exact ⟨ha, .inr ⟨d, hmem, hp.symm, (of_decide_eq_true hdraw).1⟩⟩
  · obtain ⟨ha, hp, -⟩ := mem_liveApplications.mp h
    exact ⟨ha, .inl hp.symm⟩

theorem bouncePayment_keeps (h : Kept strict s 0 0) {paymentId : Id} {input : BounceInput}
    (hs : bouncePayment chart s paymentId input companyId facts = .ok s') : Kept strict s' 0 0 := by
  unfold bouncePayment at hs
  simp only [bind_eq_ok, ensure_ok] at hs
  obtain ⟨payment, hp, -, -, -, -, -, -, hs⟩ := hs
  obtain ⟨hmem, rfl, htype, -⟩ := postedDoc_ok hp
  split at hs
  · cases hs
  · simp only [bind_eq_ok, ensure_ok] at hs
    obtain ⟨fee, hfee, -, -, ar, -, -, -, back, -, c, hc, hs⟩ := hs
    obtain rfl := pure_eq_ok.mp hs
    rename_i held hheld
    set ret : ArTxn :=
      { id := s.nextId, txnType := .returnedPayment, companyId := companyId.or payment.companyId
        contactId := payment.contactId, txnDate := input.date, total := round4 payment.total
        paymentMethod := payment.paymentMethod, sourceTxnId := some payment.id
        lines := bounceLines s ar held facts payment back } with hret
    have hcents : Cents (round4 payment.total) := by
      have htotal := h.cents_total hmem (by simp [htype])
      rwa [round4_of_cents htotal]
    have hjoins : Joins s.docs ret.toArDoc :=
      ⟨h.keyed.fresh.1, fun _ hq => (by cases hq), fun _ hq => (by cases hq),
        fun _ p hq => ⟨payment, hmem, Option.some.inj hq, htype⟩, fun ht => (by cases ht),
        fun ht => (by cases ht), fun ht => ht.elim (fun ht => (by cases ht.1)) fun hf => absurd rfl hf,
        fun hh => (by cases hh)⟩
    have htakes := ArDoc.takes_eq_zero (d := ret.toArDoc) rfl (by simp [hret])
    have hkept : Kept strict (s.addTxn ret) 0 0 := h.addTxn rfl (hcents.scaled _)
      (fun ht => by cases ht) hjoins
      (fun ht => by cases ht) (fun p => .inl (by rw [htakes, add_zero])) (htakes _)
      fun hb => by cases hb.type
    have hret_mem : ret.toArDoc ∈ (s.addTxn ret).docs := by simp
    have happs : ∀ a ∈ bouncedApps s payment, BouncedBy (s.addTxn ret).docs a.paymentId s.nextId :=
      fun a ha => by
        refine ⟨_, hret_mem, rfl, payment.id, decide_eq_true ⟨rfl, rfl, rfl⟩, ?_⟩
        rcases (mem_bouncedApps ha).2 with hid | ⟨d, hd, hdraws⟩
        · exact .inl hid
        · refine .inr ⟨d, ?_, hdraws⟩
          rw [docs_addTxn]
          exact List.mem_append_left _ hd
    have hkept' : Kept strict c 0 0 := by
      refine (hkept.restoreOrStop (fun a ha => ?_) (fun b hb a ha r hr hid => ?_) hc).1
      · exact ⟨a, (mem_bouncedApps ha).1, SameRow.refl a⟩
      · cases hb
        rw [← hkept.keyed.eq_of_id (mem_bouncedApps ha).1 hr hid]
        exact happs a ha
    have hmirror := hkept'.withTax (writeMirrorRows c s.nextId (bouncedApps s payment)).taxRows
    rcases fee with _ | fee
    · exact hmirror
    · have hcents := bounceFee_cents hfee
      refine hmirror.addPlain' rfl ?_ (fun ht => by cases ht)
        ⟨rfl, rfl, fun ht => by simp [feeTxn] at ht, by simp [feeTxn],
          by simp [feeTxn, TxnType.isCreditSource], by simp [feeTxn]⟩
      rw [feeTxn, round4_of_cents hcents]
      exact hcents

end Bounce

section Receive

theorem receiveDeposit_keeps (h : Kept strict s 0 0) {input : ReceivePaymentInput} {parsed : Parsed}
    (hw : parsed.Whole) (hs : receiveDeposit s input parsed companyId facts = .ok s') :
    Kept strict s' 0 0 := by
  unfold receiveDeposit at hs
  simp only [bind_eq_ok, ensure_ok, pure_eq_ok] at hs
  obtain ⟨-, -, -, -, -, -, rfl⟩ := hs
  refine h.addPlain' rfl ?_ (fun ht => by cases ht)
    ⟨rfl, rfl, fun _ => rfl, by simp, by simp, fun _ => rfl⟩
  rw [round4_of_cents hw.amount]
  exact hw.amount

theorem sum_only_zero {α : Type*} {k : α → Id} {w : α → Dec} {l : List α} {i : Id}
    (h : ∀ a ∈ l, k a ≠ i) : (l.map fun a => only (k a) (w a) i).sum = 0 :=
  List.sum_eq_zero fun x hx => by
    obtain ⟨a, ha, rfl⟩ := List.mem_map.mp hx
    exact only_of_ne (h a ha) _

/-- The credits of a body come from documents that are there. -/
theorem Validated.Ok.takesFrom_fresh {customerId : Id} {parsed : Parsed} {v : Validated}
    (h : v.Ok s customerId parsed) (hsources : SourcesOk s customerId parsed.credits) {p : Id}
    (hp : ∀ d ∈ s.docs, d.id ≠ p) : v.takesFrom p = 0 :=
  sum_only_zero (k := fun c : ValidatedCredit => c.sourcePaymentId) fun c hc he => by
    obtain ⟨src, hsrc⟩ := h.creditOf hsources hc
    exact hp src hsrc.mem (hsrc.id.trans he)

/-- What a checked body settles is written, once its payment is there. -/
theorem settlement_keeps {customerId : Id} {parsed : Parsed} {v : Validated} {s₀ : Receivables}
    (hv : v.Ok s₀ customerId parsed) {f g : Id → Dec} (h : Kept strict s f g)
    {pay : ArDoc} (hpay : pay ∈ s.docs) (htype : pay.txnType = .customerPayment)
    (hposted : pay.status = .posted) (hown : pay.fromDepositId = none)
    (hheld : pay.holdsDeposit = false ∨ v.apps = []) (hcustomer : pay.contactId = some customerId)
    (hcredits : ∀ c ∈ v.credits, ∃ src, CreditOf s.docs c src)
    (hinvoices : ∀ d ∈ s₀.docs, d.txnType = .invoice → d ∈ s.docs)
    (hf : ∀ i, v.takesOff i ≤ f i) (hg : ∀ p, v.takesFrom p + only pay.id parsed.cash p ≤ g p)
    {ar : Id} {date : String} {apps : List SharedApplication} {accounts : SettleAccounts}
    (happs : apps.map Prod.fst = v.apps) :
    Kept strict (writeSettlement s ar facts companyId pay.id date apps v.credits accounts) 0 0 := by
  have hmem : ∀ a ∈ apps, a.1 ∈ v.apps := fun a ha => happs ▸ List.mem_map_of_mem ha
  refine (writes_settlement (fun a ha => ?_) hcredits ⟨pay, hpay, rfl, htype, hown⟩ h
    (List.Subset.refl _) (fun i => ?_) fun p => ?_).1
  · obtain ⟨hw, -, hinv⟩ := hv.apps a.1 (hmem a ha)
    have hinv_mem := hinvoices _ (doc_of_txn hinv.mem) hinv.type
    have hheld' : pay.holdsDeposit = false := hheld.resolve_right fun hnil => by
      have := hmem a ha
      rw [hnil] at this
      cases this
    exact ⟨hw, ⟨pay, hpay, _, hinv_mem, rfl, rfl, by simp [htype, TxnType.isCreditSource], hposted, hheld', hinv.type,
      fun _ => hinv.customer.trans hcustomer.symm⟩, _, hinv_mem, rfl, hv.app_posted (hmem a ha)⟩
  · have hle := hf i
    rw [Validated.takesOff, ← happs, List.map_map] at hle
    simpa [Function.comp_def] using hle
  · have hle := hg p
    rw [Validated.takesFrom, ← hv.cash, ← happs, List.map_map] at hle
    beta_reduce
    rw [Pi.zero_apply, zero_add, add_comm]
    exact hle

theorem receivePayment_keeps (h : Kept strict s 0 0) {input : ReceivePaymentInput}
    (hs : receivePayment chart s input companyId facts = .ok s') : Kept strict s' 0 0 := by
  unfold receivePayment at hs
  obtain ⟨parsed, hparsed, hs⟩ := bind_eq_ok.mp hs
  have hw := parseSettlement_whole hparsed
  obtain ⟨-, -, hs⟩ := bind_eq_ok.mp hs
  split_ifs at hs
  · exact receiveDeposit_keeps h hw hs
  · simp only [bind_eq_ok] at hs
    obtain ⟨accounts, -, ar, -, _, hsources, v, hvalid, ⟨apps, tax⟩, hshares, -, -, hs⟩ := hs
    obtain rfl := pure_eq_ok.mp hs
    have hsources : SourcesOk s input.customerId parsed.credits := validateSources_ok hsources
    have hv := validateInvoices_ok h.keyed hw hvalid
    have hamount := round4_of_cents hw.amount
    set pay : ArTxn :=
      { id := s.nextId, txnType := .customerPayment, companyId := companyId
        contactId := some input.customerId, txnDate := input.date, total := round4 parsed.amount
        paymentMethod := input.paymentMethod, salesTaxSsuta := facts.ssutaOn
        lines := paymentLines input.depositTo ar input.customerId parsed accounts tax } with hpay
    have hfresh := h.keyed.fresh.1
    have hplain : pay.toArDoc.Plain := ⟨rfl, rfl, fun _ => rfl, by simp [hpay], by simp [hpay], fun _ => rfl⟩
    have htakes := ArDoc.takes_eq_zero hplain.fromDepositId hplain.notRefund
    have hkept : Kept strict (s.addTxn pay) v.takesOff (v.takesFrom + only pay.id parsed.cash) := by
      refine (hv.reserve h hsources).addTxn rfl (Places.scaled ?_ _) (fun ht => by cases ht) (hplain.joins hfresh)
        (fun ht => by cases ht) (fun p => ?_) (htakes _) fun _ => ?_
      · rw [show pay.total = parsed.amount from hamount]
        exact hw.amount
      · by_cases hp : p = pay.id
        · exact .inr hp
        · exact .inl (by rw [htakes, Pi.add_apply, only_of_ne (Ne.symm hp), add_zero, add_zero])
      · rw [Pi.add_apply, only_self, hv.takesFrom_fresh hsources hfresh, zero_add]
        exact le_max_of_le_left (hw.cash.trans_eq hamount.symm)
    have hsub : ∀ d ∈ s.docs, d ∈ (s.addTxn pay).docs := fun d hd => by
      rw [docs_addTxn]
      exact List.mem_append_left _ hd
    refine settlement_keeps hv hkept (by simp : pay.toArDoc ∈ _) rfl rfl rfl (.inl rfl) rfl
      (fun c hc => ?_) (fun d hd _ => hsub d hd) (fun _ => le_refl _) (fun _ => le_refl _)
      (attachShares_fst hshares)
    obtain ⟨src, hsrc⟩ := hv.creditOf hsources hc
    obtain ⟨t, ht, h⟩ := hsrc.invoice
    exact ⟨src, hsub _ hsrc.mem, hsrc.id, hsrc.type, hsrc.posted, hsrc.cents, hsrc.pos, t,
      hsub t ht, h⟩

end Receive

section Edit

/-- The rows of a payment that an edit leaves: its credit applied later. -/
def laterRows (s : Receivables) (paymentId : Id) : List AppRow :=
  (liveApplications s paymentId).filter fun a => a.appliedDate ≠ none

/-- An edit that changes something, up to what it writes. -/
structure Edits (s : Receivables) (paymentId : Id) (input : ReceivePaymentInput)
    (companyId : Option Id) (facts : PaymentFacts) (parsed : Parsed) (payment : ArDoc)
    (c : Receivables) (v : Validated) : Prop where
  body : parseSettlement input = .ok parsed
  found : postedDoc s paymentId .customerPayment companyId = .ok payment
  notBounced : liveBounce s paymentId = none
  own : payment.fromDepositId = none
  undrawn : payment.holdsDeposit = false ∨ liveDraws s paymentId = []
  self : ∀ c ∈ parsed.credits, c.sourcePaymentId ≠ paymentId
  customer : payment.contactId = some input.customerId ∨
    ¬0 < ((laterRows s paymentId).map AppRow.amount).sum + liveRefundTotal s paymentId
  room : ((laterRows s paymentId).map AppRow.amount).sum + liveRefundTotal s paymentId ≤
    parsed.amount - parsed.cash
  aside : setAside s facts paymentId = .ok c
  sources : validateSources c parsed.credits input.customerId companyId input.date = .ok ()
  invoices : validateInvoices c parsed input.customerId companyId = .ok v
  held : payment.holdsDeposit = false ∨ (parsed.apps = [] ∧ parsed.credits = [])

theorem updatePayment_ok {paymentId : Id} {input : ReceivePaymentInput}
    (hs : updatePayment chart s paymentId input companyId facts = .ok s') :
    s' = s ∨ ∃ parsed payment c v, Edits s paymentId input companyId facts parsed payment c v ∧
      ∃ ar accounts apps lines, apps.map Prod.fst = v.apps ∧
        s' = writeSettlement ((deleteShareRows c paymentId).setTxn paymentId (·.edit input parsed lines))
          ar facts companyId paymentId input.date apps v.credits accounts := by
  unfold updatePayment at hs
  obtain ⟨parsed, hparsed, hs⟩ := bind_eq_ok.mp hs
  simp only [bind_eq_ok, ensure_ok] at hs
  obtain ⟨payment, hp, -, hbounce, -, hown, -, -, -, hdraws, -, hself, -, -, -, -, hs⟩ := hs
  by_cases hsame : unchanged chart s payment input parsed
      ((liveApplications s paymentId).filter fun a => a.appliedDate = none)
  · rw [if_pos hsame] at hs
    exact .inl (pure_eq_ok.mp hs).symm
  · rw [if_neg hsame] at hs
    obtain ⟨-, hs⟩ := ite_bind_ok hs
    simp only [bind_eq_ok, ensure_ok] at hs
    obtain ⟨-, hcustomer, -, hroom, -, -, accounts, -, c, hc, _, hsources, v, hvalid, ar, -, -, hheld,
      ⟨apps, tax⟩, hshares, hs⟩ := hs
    exact .inr ⟨parsed, payment, c, v, ⟨hparsed, hp, hbounce, hown, hdraws, hself, hcustomer, hroom, hc,
      hsources, hvalid, hheld⟩, ar, accounts, apps, _, attachShares_fst hshares, (pure_eq_ok.mp hs).symm⟩

theorem setAside_ok (h : Kept strict s 0 0) {payment : ArDoc} (hmem : payment ∈ s.docs)
    (hbounce : liveBounce s payment.id = none) (hown : payment.fromDepositId = none)
    {c : Receivables} (hs : setAside s facts payment.id = .ok c) :
    Kept strict c 0 0 ∧ Shrinks s c ∧ payment ∈ c.docs ∧
      ∀ r ∈ c.rows, r.voided = false → r.paymentId = payment.id → r ∈ laterRows s payment.id := by
  unfold setAside at hs
  obtain ⟨c₁, hc₁, hs⟩ := bind_eq_ok.mp hs
  have hvoid : VoidsSafely strict fun s i => voidAt none facts.refuse s.txns.length s i :=
    fun s _ _ hs hstep => voidAt_safe s.txns.length none facts.refuse hs hstep
  obtain ⟨hkept, hshrinks, hspares⟩ := voidInner_ok hvoid h hc₁
  have happs : ∀ a ∈ (liveApplications s payment.id).filter (fun a => a.appliedDate = none) ++
      creditsAppliedIn s payment.id, ∃ r ∈ c₁.rows, SameRow r a := fun a ha => by
    have ha : a ∈ s.rows := by
      rcases List.mem_append.mp ha with ha | ha
      · exact (mem_liveApplications.mp (List.mem_of_mem_filter ha)).1
      · exact (mem_creditsAppliedIn.mp ha).1
    obtain ⟨r, hr, hstays⟩ := hshrinks.of_row ha
    exact ⟨r, hr, hstays.sameRow⟩
  obtain ⟨hkept', hleft⟩ := hkept.restoreOrStop happs (fun b hb => by cases hb) hs
  refine ⟨hkept', hshrinks.trans (shrinks_of_left hleft),
    hleft.docs ▸ hspares payment hmem hown not_false, fun r hr hv hp => ?_⟩
  rw [hleft.rows] at hr
  obtain ⟨r₁, hr₁, rfl⟩ := List.mem_map.mp hr
  split_ifs at hv hp ⊢ with hc
  · simp [AppRow.retire] at hv
  · obtain ⟨r, hmem', rfl | ⟨-, rfl⟩⟩ := hshrinks.to_row hr₁
    · have hl := h.live_of_stands hmem hown hbounce hmem' hp hv
      have happ := mem_liveApplications.mpr ⟨hmem', hp, hl⟩
      refine List.mem_filter.mpr ⟨happ, decide_eq_true fun hd => hc ⟨?_, hl⟩⟩
      exact List.mem_map_of_mem (List.mem_append_left _ (List.mem_filter.mpr ⟨happ, decide_eq_true hd⟩))
    · simp [AppRow.retire] at hv

theorem sum_laterRows (s : Receivables) (p : Id) : ((laterRows s p).map AppRow.amount).sum =
    tally (fun r => (r.paymentId = p ∧ r.live) ∧ r.appliedDate ≠ none) AppRow.amount s.rows := by
  rw [laterRows, liveApplications,
    ((List.Perm.filter _ (List.perm_insertionSort _ _)).map _).sum_eq, List.filter_filter]
  refine congrArg (fun l => (List.map AppRow.amount l).sum) (List.filter_congr fun r _ => ?_)
  rw [Bool.eq_iff_iff]
  simp [and_comm]

/-- A payment that was set aside uses its credit applied later, and its refunds. -/
theorem usedOf_aside_le (h : Kept strict s 0 0) {payment : ArDoc} (hmem : payment ∈ s.docs)
    (hbounce : liveBounce s payment.id = none) (hown : payment.fromDepositId = none)
    (hundrawn : payment.holdsDeposit = false ∨ liveDraws s payment.id = []) {c : Receivables}
    (hs : setAside s facts payment.id = .ok c) :
    usedOf c.docs c.rows payment.id ≤
      ((laterRows s payment.id).map AppRow.amount).sum + liveRefundTotal s payment.id := by
  obtain ⟨hkept, hshrinks, -, hlater⟩ := setAside_ok h hmem hbounce hown hs
  obtain ⟨⟨F, hF, hFs⟩, G, hG, hGs⟩ := hshrinks
  have hrows : tally (fun r => r.paymentId = payment.id ∧ r.voided = false) AppRow.amount c.rows ≤
      ((laterRows s payment.id).map AppRow.amount).sum := by
    rw [sum_laterRows, hG, tally_map]
    refine (tally_congr (fun _ _ => rfl) fun r hr _ => ?_).trans_le
      (tally_mono (w := AppRow.amount) (fun r hr hp => ?_) fun r hr _ => (h.paid.whole r hr).amount_nonneg)
    · rcases hGs r hr with he | ⟨-, he⟩ <;> simp [he]
    · obtain ⟨hp, hv⟩ := of_decide_eq_true hp
      have hmem' := hlater (G r) (hG ▸ List.mem_map_of_mem hr) hv hp
      rcases hGs r hr with he | ⟨-, he⟩
      · rw [he] at hmem'
        obtain ⟨happ, hd⟩ := List.mem_filter.mp hmem'
        exact decide_eq_true ⟨(mem_liveApplications.mp happ).2, of_decide_eq_true hd⟩
      · simp [he, AppRow.retire] at hv
  have hdraws : tally (fun d => d.fromDepositId = some payment.id ∧ d.status = .posted) ArDoc.total
      c.docs = 0 := by
    refine tally_eq_zero fun d' hd' => decide_eq_false ?_
    rintro ⟨hfrom, hp⟩
    rw [hF] at hd'
    obtain ⟨d, hd, rfl⟩ := List.mem_map.mp hd'
    have hstays := hFs d hd
    rw [hstays.posted hp] at hfrom hp
    rcases hundrawn with hheld | hnone
    · obtain ⟨-, e, he, hid, hholds⟩ := h.fits.drawn d hd _ hfrom
      rw [h.doc_eq he hmem hid, hheld] at hholds
      cases hholds
    · have : d ∈ liveDraws s payment.id := List.mem_filter.mpr ⟨hd, decide_eq_true ⟨hfrom, hp⟩⟩
      rw [hnone] at this
      cases this
  have hrefunds : tally (fun d => d.refunds payment.id) ArDoc.total c.docs ≤
      liveRefundTotal s payment.id := by
    rw [hF, tally_map]
    refine (tally_congr (fun _ _ => rfl) fun d hd _ => (hFs d hd).total).trans_le
      (tally_mono (w := ArDoc.total) (fun d hd hp => ?_) fun d hd hp => ?_)
    · obtain ⟨-, -, hposted⟩ := of_decide_eq_true hp
      rwa [(hFs d hd).posted hposted] at hp
    · obtain ⟨hsource, htype, -⟩ := of_decide_eq_true hp
      exact h.fits.nonneg d hd (.inl ⟨htype, by simp [hsource]⟩)
  unfold usedOf
  linarith

theorem docs_editTxn {F : ArTxn → ArTxn} {i : Id} {date : String} {contactId : Id} {total : Dec}
    {lines : List ArLine} (hF : ∀ t, (F t).toArDoc = t.toArDoc.rewritten date contactId total lines)
    (c : Receivables) : (c.setTxn i F).docs = editIn i date contactId total lines c.docs := by
  unfold Receivables.setTxn Receivables.docs editIn
  rw [List.map_map, List.map_map]
  refine List.map_congr_left fun t _ => ?_
  simp only [Function.comp_apply]
  split_ifs
  · exact hF t
  · rfl

/-- The header of a document is rewritten. -/
theorem Kept.editTxn {f g g' : Id → Dec} {c : Receivables} (h : Kept strict c f g) {i : Id}
    {F : ArTxn → ArTxn} {date : String} {contactId : Id} {total : Dec} {lines : List ArLine}
    (hF : ∀ t, (F t).toArDoc = t.toArDoc.rewritten date contactId total lines) (hcents : Cents total)
    (hshows : ∀ t ∈ c.txns, t.id = i → t.txnType = .invoice →
      t.Shows strict (paidBy c.rows t.id) → (F t).Shows strict (paidBy c.rows t.id))
    (hd : ∀ d ∈ c.docs, d.id = i → d.txnType ≠ .customerRefund ∧ d.fromDepositId = none)
    (hcustomer : strict → (∀ d ∈ c.docs, d.id = i → d.contactId = some contactId) ∨
      ∀ r ∈ c.rows, r.voided = false → r.paymentId ≠ i ∧ r.invoiceId ≠ i)
    (hf : ∀ d ∈ c.docs, d.id = i → d.txnType = .invoice → paidBy c.rows i + f i ≤ max total 0)
    (hg : ∀ d ∈ c.docs, d.id ≠ i → g' d.id ≤ g d.id)
    (hi : ∀ d ∈ c.docs, d.id = i → d.txnType.isCreditSource →
      usedOf c.docs c.rows i + g' i ≤ max total 0) : Kept strict (c.setTxn i F) f g' where
  keyed := by
    refine h.keyed.of_ids rfl (le_refl _) ?_ rfl
    rw [docs_editTxn hF, editIn, List.map_map]
    refine List.map_congr_left fun d _ => ?_
    simp only [Function.comp_apply]
    split_ifs <;> rfl
  paid := by
    refine ⟨fun t' ht' => ?_, h.paid.whole, fun t' ht' hinv => ?_⟩
    · obtain ⟨t, ht, rfl⟩ := List.mem_map.mp ht'
      split_ifs
      · rw [show (F t).total = total from congrArg ArDoc.total (hF t)]
        exact hcents.scaled _
      · exact h.paid.cents t ht
    · obtain ⟨t, ht, rfl⟩ := List.mem_map.mp ht'
      split_ifs at hinv ⊢ with hid
      · have hsame : (F t).id = t.id ∧ (F t).txnType = t.txnType := by simp [hF, ArDoc.rewritten]
        have hinv : t.txnType = .invoice := hsame.2.symm.trans hinv
        rw [hsame.1]
        exact hshows t ht hid hinv (h.paid.shows t ht hinv)
      · exact h.paid.shows t ht hinv
  fits := by
    rw [docs_editTxn hF]
    exact h.fits.editDoc hd hcustomer hf hg hi

theorem updatePayment_keeps (h : Kept strict s 0 0) {paymentId : Id} {input : ReceivePaymentInput}
    (hs : updatePayment chart s paymentId input companyId facts = .ok s') : Kept strict s' 0 0 := by
  obtain rfl | ⟨parsed, payment, c, v, hedit, ar, accounts, apps, lines, happs, rfl⟩ :=
    updatePayment_ok hs
  · exact h
  have hw := parseSettlement_whole hedit.body
  obtain ⟨hmem, rfl, htype, hposted⟩ := postedDoc_ok hedit.found
  obtain ⟨hkept, -, hpay, hlater⟩ := setAside_ok h hmem hedit.notBounced hedit.own hedit.aside
  have hsources : SourcesOk c input.customerId parsed.credits := validateSources_ok hedit.sources
  have hv := validateInvoices_ok hkept.keyed hw hedit.invoices
  have hused := usedOf_aside_le h hmem hedit.notBounced hedit.own hedit.undrawn hedit.aside
  have hamount := round4_of_cents hw.amount
  have hdocs : ∀ d ∈ c.docs, d.id = payment.id → d = payment := fun d hd hid =>
    hkept.doc_eq hd hpay hid
  have hnone : v.takesFrom payment.id = 0 := by
    refine sum_only_zero (k := fun c : ValidatedCredit => c.sourcePaymentId) fun x hx he => ?_
    obtain ⟨-, -, -, x', hx', hid⟩ := hv.credits x hx
    exact hedit.self x' hx' (hid.trans he)
  have hcustomer : (∀ d ∈ c.docs, d.id = payment.id → d.contactId = some input.customerId) ∨
      ∀ r ∈ c.rows, r.voided = false → r.paymentId ≠ payment.id ∧ r.invoiceId ≠ payment.id := by
    refine hedit.customer.imp (fun hc d hd hid => by rw [hdocs d hd hid, hc]) fun hdrawn r hr hstands => ?_
    constructor
    · refine fun hp => hdrawn ?_
      have hrow := hlater r hr hstands hp
      obtain ⟨happ, hdate⟩ := List.mem_filter.mp hrow
      have hmem' := (mem_liveApplications.mp happ).1
      have hpos := h.fits.later r hmem' (of_decide_eq_true hdate)
      have hle := List.single_le_sum (l := (laterRows s payment.id).map AppRow.amount) (fun x hx => by
        obtain ⟨r', hr', rfl⟩ := List.mem_map.mp hx
        exact (h.paid.whole r' (mem_liveApplications.mp (List.mem_of_mem_filter hr')).1).amount_nonneg) _
        (List.mem_map_of_mem hrow)
      have hrefunds := h.liveRefundTotal_nonneg payment.id
      linarith
    · intro hi
      obtain ⟨_, _, t, ht, _, htid, hpays⟩ := hkept.fits.links r hr hstands
      have hinv := hpays.invoice
      rw [hdocs t ht (htid.trans hi), htype] at hinv
      cases hinv
  have hF : ∀ t : ArTxn, (t.edit input parsed lines).toArDoc =
      t.toArDoc.rewritten input.date input.customerId (round4 parsed.amount) lines := fun _ => rfl
  have hedited : Kept strict
      ((deleteShareRows c payment.id).setTxn payment.id (·.edit input parsed lines))
      v.takesOff (v.takesFrom + only payment.id parsed.cash) := by
    refine ((hv.reserve hkept hsources).withTax _).editTxn hF ?_ (fun t ht hid hinv => ?_)
      (fun d hd hid => ?_) (fun _ => hcustomer) (fun d hd hid hinv => ?_) (fun d hd hid => ?_)
      fun _ _ _ _ => ?_
    · rw [hamount]
      exact hw.amount
    · exact absurd ((hdocs _ (doc_of_txn ht) hid ▸ htype).symm.trans hinv) (by simp)
    · rw [hdocs d hd hid]
      exact ⟨by simp [htype], hedit.own⟩
    · exact absurd ((hdocs d hd hid ▸ htype).symm.trans hinv) (by simp)
    · rw [Pi.add_apply, only_of_ne (Ne.symm hid), add_zero]
    · rw [Pi.add_apply, only_self, hnone, hamount]
      have := hedit.room
      refine le_max_of_le_left ?_
      change usedOf c.docs c.rows payment.id + _ ≤ _
      linarith
  have hmem' : payment.rewritten input.date input.customerId (round4 parsed.amount) lines ∈
      ((deleteShareRows c payment.id).setTxn payment.id (·.edit input parsed lines)).docs := by
    have := mem_editIn payment.id input.date input.customerId (round4 parsed.amount) lines hpay
    rwa [if_pos rfl, ← docs_editTxn hF] at this
  have hothers : ∀ d ∈ c.docs, d.id ≠ payment.id →
      d ∈ ((deleteShareRows c payment.id).setTxn payment.id (·.edit input parsed lines)).docs :=
    fun d hd hid => by
      have := mem_editIn payment.id input.date input.customerId (round4 parsed.amount) lines hd
      rwa [if_neg hid, ← docs_editTxn hF] at this
  have hinvoice : ∀ d ∈ c.docs, d.txnType = .invoice → d.id ≠ payment.id := fun d hd hinv hid => by
    rw [hdocs d hd hid, htype] at hinv
    cases hinv
  refine settlement_keeps hv hedited hmem' htype hposted
    hedit.own (hedit.held.imp_right fun hnil => hv.noApps hnil.1) rfl (fun x hx => ?_)
    (fun d hd hinv => hothers d hd (hinvoice d hd hinv)) (fun _ => le_refl _) (fun _ => le_refl _) happs
  obtain ⟨src, hsrc⟩ := hv.creditOf hsources hx
  obtain ⟨t, ht, hid, hinv, ht'⟩ := hsrc.invoice
  obtain ⟨-, -, -, x', hx', hid'⟩ := hv.credits x hx
  refine ⟨src, hothers _ hsrc.mem fun he => hedit.self x' hx' ?_, hsrc.id, hsrc.type, hsrc.posted,
    hsrc.cents, hsrc.pos, t, hothers t ht (hinvoice t ht hinv), hid, hinv, ht'⟩
  rw [hid', ← hsrc.id, he]

end Edit

section Steps

theorem arStep_keeps {op : ArOp} (h : Kept strict s 0 0) (hs : arStep chart s op = .ok s') : Kept strict s' 0 0 := by
  cases op with
  | createInvoice => exact createInvoice_keeps h hs
  | createCreditMemoDocument => exact createCreditMemoDocument_keeps h hs
  | createCreditMemo => exact createCreditMemo_keeps h hs
  | createCustomerRefund => exact createCustomerRefund_keeps h hs
  | receivePayment => exact receivePayment_keeps h hs
  | updatePayment => exact updatePayment_keeps h hs
  | applyCredit => exact applyCredit_keeps h hs
  | applyCreditMemo => exact applyCreditMemo_keeps h hs
  | unapplyPayment => exact unapplyPayment_keeps h hs
  | unapplyCreditMemo => exact unapplyCreditMemo_keeps h hs
  | bouncePayment => exact bouncePayment_keeps h hs
  | voidTransaction i companyId facts => exact (voidAt_safe s.txns.length companyId facts.refuse h hs).1

theorem kept_empty (uuids : Uuids) : Kept strict (Receivables.empty uuids) 0 0 where
  keyed := ⟨List.nodup_nil, List.nodup_nil, by simp [Receivables.empty, Receivables.docs],
    by simp [Receivables.empty]⟩
  paid := ⟨by simp [Receivables.empty], by simp [Receivables.empty], by simp [Receivables.empty]⟩
  fits := by
    constructor
    · constructor <;> simp [Receivables.empty, Receivables.docs]
    all_goals simp [Receivables.empty, Receivables.docs]

end Steps

end MyBooks
