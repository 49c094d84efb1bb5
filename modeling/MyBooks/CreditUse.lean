import MyBooks.Applied

/-!
# What the credits are used for

A payment or credit memo gives its amount once: to the rows that apply it, to draws while it is
held, and to refunds. `CreditsFit strict docs rows f g` says that the documents and the rows go
together, no invoice paid past its total and no credit used past its own, with `f i` of invoice `i` and
`g p` of credit `p` set aside for what an operation has checked and is still to write. With `strict`,
a row also has a payment and an invoice of one client. Each way of changing the tables keeps it.
-/

namespace MyBooks

variable {strict : Prop}

section CreditsFit

/-- What a credit is used for: the rows that apply it, bounced or not, the draws and the refunds. -/
def usedOf (docs : List ArDoc) (rows : List AppRow) (p : Id) : Dec :=
  tally (fun r => r.paymentId = p ∧ r.voided = false) AppRow.amount rows +
    tally (fun d => d.fromDepositId = some p ∧ d.status = .posted) ArDoc.total docs +
    tally (fun d => d.refunds p) ArDoc.total docs

/-- What a new document uses of a credit. -/
def ArDoc.takes (d : ArDoc) (p : Id) : Dec :=
  (if d.fromDepositId = some p ∧ d.status = .posted then d.total else 0) +
    if d.refunds p then d.total else 0

/-- A posted payment or credit memo that is no draw on a deposit. -/
structure ArDoc.IsCredit (d : ArDoc) : Prop where
  type : d.txnType.isCreditSource
  posted : d.status = .posted
  own : d.fromDepositId = none

/-- A posted payment or credit memo that is not held, and an invoice of its customer. -/
structure ArDoc.MayPay (strict : Prop) (d t : ArDoc) : Prop where
  type : d.txnType.isCreditSource
  posted : d.status = .posted
  notHeld : d.holdsDeposit = false
  invoice : t.txnType = .invoice
  customer : strict → t.contactId = d.contactId

def PayLinks (strict : Prop) (docs : List ArDoc) (p i : Id) : Prop :=
  ∃ d ∈ docs, ∃ t ∈ docs, d.id = p ∧ t.id = i ∧ d.MayPay strict t

/-- `b` is a posted bounce of the payment `p`, or of the deposit that `p` draws on. -/
def BouncedBy (docs : List ArDoc) (p b : Id) : Prop :=
  ∃ e ∈ docs, e.id = b ∧ ∃ q, e.bounces q ∧
    (q = p ∨ ∃ d ∈ docs, d.id = p ∧ d.fromDepositId = some q)

/-- The documents that others name are there. -/
structure Linked (docs : List ArDoc) : Prop where
  drawn : ∀ d ∈ docs, ∀ h, d.fromDepositId = some h →
    d.txnType = .customerPayment ∧ ∃ e ∈ docs, e.id = h ∧ e.holdsDeposit
  refunded : ∀ d ∈ docs, ∀ p, d.sourcePaymentId = some p → ∃ e ∈ docs, e.id = p
  bounced : ∀ d ∈ docs, d.txnType = .returnedPayment → ∀ p, d.sourceTxnId = some p →
    ∃ e ∈ docs, e.id = p ∧ e.txnType = .customerPayment
  /-- Only draws are made inside a payment, and none inside a draw. -/
  inside : ∀ d ∈ docs, d.txnType = .customerPayment → ∀ p, d.sourceTxnId = some p →
    d.fromDepositId ≠ none ∧ ∃ e ∈ docs, e.id = p ∧ e.fromDepositId = none
  held : ∀ d ∈ docs, d.holdsDeposit → d.txnType = .customerPayment

structure CreditsFit (strict : Prop) (docs : List ArDoc) (rows : List AppRow) (f g : Id → Dec) : Prop
    extends Linked docs where
  invoices : ∀ d ∈ docs, d.txnType = .invoice → paidBy rows d.id + f d.id ≤ max d.total 0
  credits : ∀ d ∈ docs, d.IsCredit → usedOf docs rows d.id + g d.id ≤ max d.total 0
  links : ∀ r ∈ rows, r.voided = false → PayLinks strict docs r.paymentId r.invoiceId
  live : ∀ r ∈ rows, r.live → ∃ t ∈ docs, t.id = r.invoiceId ∧ t.status = .posted
  reversed : ∀ r ∈ rows, ∀ b, r.reversedByTxnId = some b →
    r.voided = false ∧ BouncedBy docs r.paymentId b
  /-- Credit that is applied later is more than nothing. -/
  later : ∀ r ∈ rows, r.appliedDate ≠ none → 0 < r.amount
  memos : ∀ r ∈ rows, r.voided = false → ∀ d ∈ docs, d.id = r.paymentId → d.txnType = .creditMemo →
    0 < r.amount
  customer : ∀ d ∈ docs, d.txnType.isCreditSource → d.contactId ≠ none
  nonneg : ∀ d ∈ docs, (d.txnType = .customerRefund ∧ d.sourcePaymentId ≠ none) ∨
    d.fromDepositId ≠ none → 0 ≤ d.total

/-- A document that may join the others. -/
structure Joins (docs : List ArDoc) (d : ArDoc) : Prop where
  fresh : ∀ e ∈ docs, e.id ≠ d.id
  drawn : ∀ h, d.fromDepositId = some h →
    d.txnType = .customerPayment ∧ ∃ e ∈ docs, e.id = h ∧ e.holdsDeposit
  refunded : ∀ p, d.sourcePaymentId = some p → ∃ e ∈ docs, e.id = p
  bounced : d.txnType = .returnedPayment → ∀ p, d.sourceTxnId = some p →
    ∃ e ∈ docs, e.id = p ∧ e.txnType = .customerPayment
  inside : d.txnType = .customerPayment → ∀ p, d.sourceTxnId = some p →
    d.fromDepositId ≠ none ∧ ∃ e ∈ docs, e.id = p ∧ e.fromDepositId = none
  customer : d.txnType.isCreditSource → d.contactId ≠ none
  nonneg : (d.txnType = .customerRefund ∧ d.sourcePaymentId ≠ none) ∨ d.fromDepositId ≠ none →
    0 ≤ d.total
  held : d.holdsDeposit → d.txnType = .customerPayment

end CreditsFit

section Changes

variable {docs docs' : List ArDoc} {rows : List AppRow} {f f' g g' : Id → Dec}

theorem PayLinks.mono {p i : Id} (h : PayLinks strict docs p i) (hsub : docs ⊆ docs') : PayLinks strict docs' p i :=
  let ⟨d, hd, t, ht, h⟩ := h
  ⟨d, hsub hd, t, hsub ht, h⟩

theorem BouncedBy.mono {p b : Id} (h : BouncedBy docs p b) (hsub : docs ⊆ docs') :
    BouncedBy docs' p b := by
  obtain ⟨e, he, hid, q, hq, h⟩ := h
  refine ⟨e, hsub he, hid, q, hq, h.imp_right fun ⟨d, hd, h⟩ => ⟨d, hsub hd, h⟩⟩

theorem CreditsFit.mono (h : CreditsFit strict docs rows f g) (hf : ∀ i, f' i ≤ f i) (hg : ∀ p, g' p ≤ g p) :
    CreditsFit strict docs rows f' g' :=
  { h with
    invoices := fun d hd hi => (add_le_add_right (hf d.id) _).trans (h.invoices d hd hi)
    credits := fun d hd hc => (add_le_add_right (hg d.id) _).trans (h.credits d hd hc) }

theorem usedOf_append (docs : List ArDoc) (rows : List AppRow) (d : ArDoc) (p : Id) :
    usedOf (docs ++ [d]) rows p = usedOf docs rows p + d.takes p := by
  simp only [usedOf, ArDoc.takes, tally_append, tally_cons, tally_nil, decide_eq_true_eq]
  ring

theorem paidBy_fresh (h : CreditsFit strict docs rows f g) {i : Id} (hi : ∀ e ∈ docs, e.id ≠ i) :
    paidBy rows i = 0 := by
  refine tally_eq_zero fun r hr => decide_eq_false fun ⟨hri, hl⟩ => ?_
  obtain ⟨t, ht, hid, -⟩ := h.live r hr hl
  exact hi t ht (hid.trans hri)

theorem usedOf_fresh (h : CreditsFit strict docs rows f g) {p : Id} (hp : ∀ e ∈ docs, e.id ≠ p) :
    usedOf docs rows p = 0 := by
  have hrows : tally (fun r : AppRow => r.paymentId = p ∧ r.voided = false) AppRow.amount rows = 0 := by
    refine tally_eq_zero fun r hr => decide_eq_false fun ⟨hrp, hv⟩ => ?_
    obtain ⟨d, hd, -, -, hid, -⟩ := h.links r hr hv
    exact hp d hd (hid.trans hrp)
  have hdraws : tally (fun d : ArDoc => d.fromDepositId = some p ∧ d.status = .posted) ArDoc.total
      docs = 0 := by
    refine tally_eq_zero fun d hd => decide_eq_false fun ⟨hdp, _⟩ => ?_
    obtain ⟨-, e, he, hid, -⟩ := h.drawn d hd p hdp
    exact hp e he hid
  have hrefunds : tally (fun d : ArDoc => d.refunds p) ArDoc.total docs = 0 := by
    refine tally_eq_zero fun d hd => decide_eq_false fun ⟨hdp, _⟩ => ?_
    obtain ⟨e, he, hid⟩ := h.refunded d hd p hdp
    exact hp e he hid
  rw [usedOf, hrows, hdraws, hrefunds, add_zero, add_zero]

theorem Linked.add (h : Linked docs) {d : ArDoc} (hd : Joins docs d) : Linked (docs ++ [d]) where
  drawn := by
    intro e he q hq
    have : e.txnType = .customerPayment ∧ ∃ e ∈ docs, e.id = q ∧ e.holdsDeposit := by
      rcases List.mem_append.mp he with he | he
      · exact h.drawn e he q hq
      · obtain rfl := List.mem_singleton.mp he
        exact hd.drawn q hq
    exact this.imp_right fun ⟨e', he', h'⟩ => ⟨e', List.mem_append_left _ he', h'⟩
  bounced := by
    intro e he ht q hq
    have : ∃ e ∈ docs, e.id = q ∧ e.txnType = .customerPayment := by
      rcases List.mem_append.mp he with he | he
      · exact h.bounced e he ht q hq
      · obtain rfl := List.mem_singleton.mp he
        exact hd.bounced ht q hq
    obtain ⟨e', he', h'⟩ := this
    exact ⟨e', List.mem_append_left _ he', h'⟩
  refunded := by
    intro e he q hq
    have : ∃ e ∈ docs, e.id = q := by
      rcases List.mem_append.mp he with he | he
      · exact h.refunded e he q hq
      · exact hd.refunded q (List.mem_singleton.mp he ▸ hq)
    obtain ⟨e', he', h'⟩ := this
    exact ⟨e', List.mem_append_left _ he', h'⟩
  inside := by
    intro e he ht q hq
    have : e.fromDepositId ≠ none ∧ ∃ e' ∈ docs, e'.id = q ∧ e'.fromDepositId = none := by
      rcases List.mem_append.mp he with he | he
      · exact h.inside e he ht q hq
      · obtain rfl := List.mem_singleton.mp he
        exact hd.inside ht q hq
    exact this.imp_right fun ⟨e', he', h'⟩ => ⟨e', List.mem_append_left _ he', h'⟩
  held := by
    intro e he hholds
    rcases List.mem_append.mp he with he | he
    · exact h.held e he hholds
    · obtain rfl := List.mem_singleton.mp he
      exact hd.held hholds

/-- A new document uses what was set aside for it, and may have its own set aside. -/
theorem CreditsFit.addDoc (h : CreditsFit strict docs rows f g) {d : ArDoc} (hd : Joins docs d)
    (hf : d.txnType = .invoice → f d.id ≤ max d.total 0)
    (hg : ∀ p, g' p + d.takes p ≤ g p ∨ p = d.id) (hown : d.takes d.id = 0)
    (hgd : d.IsCredit → g' d.id ≤ max d.total 0) : CreditsFit strict (docs ++ [d]) rows f g' where
  toLinked := h.toLinked.add hd
  invoices := by
    intro e he hi
    rcases List.mem_append.mp he with he | he
    · exact h.invoices e he hi
    · obtain rfl := List.mem_singleton.mp he
      rw [paidBy_fresh h hd.fresh, zero_add]
      exact hf hi
  credits := by
    intro e he hc
    rw [usedOf_append]
    rcases List.mem_append.mp he with he | he
    · have hle := (hg e.id).resolve_right (hd.fresh e he)
      have := h.credits e he hc
      linarith
    · obtain rfl := List.mem_singleton.mp he
      rw [usedOf_fresh h hd.fresh, hown, zero_add, zero_add]
      exact hgd hc
  links := fun r hr hv => (h.links r hr hv).mono (List.subset_append_left _ _)
  live := fun r hr hl =>
    let ⟨t, ht, h⟩ := h.live r hr hl
    ⟨t, List.mem_append_left _ ht, h⟩
  reversed := fun r hr b hb => (h.reversed r hr b hb).imp_right
    fun h => h.mono (List.subset_append_left _ _)
  later := h.later
  memos := by
    intro r hr hv e he hid ht
    rcases List.mem_append.mp he with he | he
    · exact h.memos r hr hv e he hid ht
    · obtain rfl := List.mem_singleton.mp he
      obtain ⟨e, he, -, -, hid', -⟩ := h.links r hr hv
      exact absurd (hid'.trans hid.symm) (hd.fresh e he)
  customer := by
    intro e he ht
    rcases List.mem_append.mp he with he | he
    · exact h.customer e he ht
    · obtain rfl := List.mem_singleton.mp he
      exact hd.customer ht
  nonneg := by
    intro e he ht
    rcases List.mem_append.mp he with he | he
    · exact h.nonneg e he ht
    · obtain rfl := List.mem_singleton.mp he
      exact hd.nonneg ht

theorem usedOf_addRow (docs : List ArDoc) (rows : List AppRow) {r : AppRow} (hr : r.voided = false)
    (p : Id) : usedOf docs (rows ++ [r]) p =
      usedOf docs rows p + if r.paymentId = p then r.amount else 0 := by
  simp only [usedOf, tally_append, tally_cons, tally_nil, hr, and_true, decide_eq_true_eq]
  ring

theorem paidBy_addRow (rows : List AppRow) {r : AppRow} (hr : r.live) (i : Id) :
    paidBy (rows ++ [r]) i = paidBy rows i + if r.invoiceId = i then r.settledBy else 0 := by
  simp only [paidBy, tally_append, tally_cons, tally_nil, hr, and_true, decide_eq_true_eq, add_zero]

/-- A new row takes what was set aside for it. -/
theorem CreditsFit.addRow (h : CreditsFit strict docs rows f g) {r : AppRow} (hl : r.live)
    (hlinks : PayLinks strict docs r.paymentId r.invoiceId)
    (hposted : ∃ t ∈ docs, t.id = r.invoiceId ∧ t.status = .posted)
    (hpos : r.appliedDate ≠ none ∨ (∃ d ∈ docs, d.id = r.paymentId ∧ d.txnType = .creditMemo) →
      0 < r.amount)
    (hf : ∀ i, f' i + (if r.invoiceId = i then r.settledBy else 0) ≤ f i)
    (hg : ∀ d ∈ docs, d.IsCredit → g' d.id + (if r.paymentId = d.id then r.amount else 0) ≤ g d.id) :
    CreditsFit strict docs (rows ++ [r]) f' g' := by
  obtain ⟨hv, hrev⟩ : r.voided = false ∧ r.reversedByTxnId = none := by simpa [AppRow.live] using hl
  refine { h with
    invoices := ?_, credits := ?_, links := ?_, live := ?_, reversed := ?_, later := ?_, memos := ?_ }
  · intro d hd hi
    rw [paidBy_addRow rows hl]
    have := h.invoices d hd hi
    have := hf d.id
    linarith
  · intro d hd hc
    rw [usedOf_addRow docs rows hv]
    have := h.credits d hd hc
    have := hg d hd hc
    linarith
  · intro r' hr' hv'
    rcases List.mem_append.mp hr' with hr' | hr'
    · exact h.links r' hr' hv'
    · obtain rfl := List.mem_singleton.mp hr'
      exact hlinks
  · intro r' hr' hl'
    rcases List.mem_append.mp hr' with hr' | hr'
    · exact h.live r' hr' hl'
    · obtain rfl := List.mem_singleton.mp hr'
      exact hposted
  · intro r' hr' b hb
    rcases List.mem_append.mp hr' with hr' | hr'
    · exact h.reversed r' hr' b hb
    · obtain rfl := List.mem_singleton.mp hr'
      rw [hrev] at hb
      cases hb
  · intro r' hr' hd
    rcases List.mem_append.mp hr' with hr' | hr'
    · exact h.later r' hr' hd
    · obtain rfl := List.mem_singleton.mp hr'
      exact hpos (.inl hd)
  · intro r' hr' hv' d hd hid ht
    rcases List.mem_append.mp hr' with hr' | hr'
    · exact h.memos r' hr' hv' d hd hid ht
    · obtain rfl := List.mem_singleton.mp hr'
      exact hpos (.inr ⟨d, hd, hid, ht⟩)

end Changes

section Rows

variable {docs : List ArDoc} {rows : List AppRow} {f g : Id → Dec} {set : Retire}

theorem retire_stood {r : AppRow} (h : (r.retire set).voided = false) : r.voided = false := by
  cases set with
  | voided => simp [AppRow.retire] at h
  | reversed b => exact h

theorem paidBy_retireIn_le (hw : ∀ r ∈ rows, r.Whole) (ids : List Id) (i : Id) :
    paidBy (retireIn set ids rows) i ≤ paidBy rows i := by
  unfold paidBy retireIn
  rw [tally_map]
  refine (tally_congr (fun _ _ => rfl) fun r _ _ => ?_).trans_le
    (tally_mono (w := AppRow.settledBy) (fun r _ hp => ?_) fun r hr _ => (hw r hr).settledBy_nonneg)
  · split_ifs <;> simp
  · simp only [decide_eq_true_eq] at hp ⊢
    split_ifs at hp with hc
    · simp at hp
    · exact hp

theorem usedOf_retireIn_le (hw : ∀ r ∈ rows, r.Whole) (ids : List Id) (p : Id) :
    usedOf docs (retireIn set ids rows) p ≤ usedOf docs rows p := by
  have hrows : tally (fun r => r.paymentId = p ∧ r.voided = false) AppRow.amount
      (retireIn set ids rows) ≤ tally (fun r => r.paymentId = p ∧ r.voided = false) AppRow.amount rows := by
    unfold retireIn
    rw [tally_map]
    refine (tally_congr (fun _ _ => rfl) fun r _ _ => ?_).trans_le
      (tally_mono (w := AppRow.amount) (fun r _ hp => ?_) fun r hr _ => (hw r hr).amount_nonneg)
    · split_ifs <;> simp
    · simp only [decide_eq_true_eq] at hp ⊢
      split_ifs at hp with hc
      · exact ⟨by simpa using hp.1, retire_stood hp.2⟩
      · exact hp
  unfold usedOf
  linarith

/-- Rows are retired; one that is reversed is so by a bounce of its payment. -/
theorem CreditsFit.retire (h : CreditsFit strict docs rows f g) (hw : ∀ r ∈ rows, r.Whole) {ids : List Id}
    (hrev : ∀ b, set = .reversed b → ∀ r ∈ rows, r.id ∈ ids → r.live → BouncedBy docs r.paymentId b) :
    CreditsFit strict docs (retireIn set ids rows) f g := by
  refine { h with
    invoices := ?_, credits := ?_, links := ?_, live := ?_, reversed := ?_, later := ?_, memos := ?_ }
  · intro d hd hi
    exact (add_le_add_left (paidBy_retireIn_le hw ids d.id) _).trans (h.invoices d hd hi)
  · intro d hd hc
    exact (add_le_add_left (usedOf_retireIn_le hw ids d.id) _).trans (h.credits d hd hc)
  · intro r' hr' hv
    obtain ⟨r, hr, rfl⟩ := List.mem_map.mp hr'
    split_ifs at hv ⊢
    · simpa using h.links r hr (retire_stood hv)
    · exact h.links r hr hv
  · intro r' hr' hl
    obtain ⟨r, hr, rfl⟩ := List.mem_map.mp hr'
    split_ifs at hl ⊢
    · simp at hl
    · exact h.live r hr hl
  · intro r' hr' b hb
    obtain ⟨r, hr, rfl⟩ := List.mem_map.mp hr'
    split_ifs at hb ⊢ with hc
    · obtain ⟨hv, hnone⟩ : r.voided = false ∧ r.reversedByTxnId = none := by
        simpa [AppRow.live] using hc.2
      cases set with
      | voided => simp [AppRow.retire, hnone] at hb
      | reversed b' =>
        obtain rfl : b' = b := by simpa [AppRow.retire] using hb
        exact ⟨hv, hrev _ rfl r hr hc.1 hc.2⟩
    · exact h.reversed r hr b hb
  · intro r' hr' hd
    obtain ⟨r, hr, rfl⟩ := List.mem_map.mp hr'
    split_ifs at hd ⊢
    · rw [retire_amount]
      exact h.later r hr (by cases set <;> exact hd)
    · exact h.later r hr hd
  · intro r' hr' hv d hd hid ht
    obtain ⟨r, hr, rfl⟩ := List.mem_map.mp hr'
    split_ifs at hv hid ⊢
    · rw [retire_amount]
      exact h.memos r hr (retire_stood hv) d hd (by simpa using hid) ht
    · exact h.memos r hr hv d hd hid ht

/-- A row that the bounce `b` reversed is applied again. -/
def putBackIn (b i : Id) (rows : List AppRow) : List AppRow :=
  rows.map fun r =>
    if r.id = i ∧ r.reversedByTxnId = some b ∧ r.voided = false then { r with reversedByTxnId := none }
    else r

theorem usedOf_putBackIn (b i p : Id) :
    usedOf docs (putBackIn b i rows) p = usedOf docs rows p := by
  unfold usedOf putBackIn
  rw [tally_map]
  congr 2
  refine tally_congr (fun r _ => ?_) fun r _ _ => ?_
  · split_ifs <;> rfl
  · split_ifs <;> rfl

theorem CreditsFit.putBack (h : CreditsFit strict docs rows f g) {b i : Id} {a : AppRow}
    (ha : ∀ r ∈ rows, r.id = i → r.invoiceId = a.invoiceId)
    (hposted : ∃ t ∈ docs, t.id = a.invoiceId ∧ t.status = .posted)
    (hroom : ∀ d ∈ docs, d.txnType = .invoice →
      paidBy (putBackIn b i rows) d.id + f d.id ≤ max d.total 0) :
    CreditsFit strict docs (putBackIn b i rows) f g := by
  refine { h with
    invoices := hroom, credits := ?_, links := ?_, live := ?_, reversed := ?_, later := ?_, memos := ?_ }
  · intro d hd hc
    rw [usedOf_putBackIn]
    exact h.credits d hd hc
  · intro r' hr' hv
    obtain ⟨r, hr, rfl⟩ := List.mem_map.mp hr'
    split_ifs at hv ⊢ <;> exact h.links r hr hv
  · intro r' hr' hl
    obtain ⟨r, hr, rfl⟩ := List.mem_map.mp hr'
    split_ifs at hl ⊢ with hc
    · simpa only [ha r hr hc.1] using hposted
    · exact h.live r hr hl
  · intro r' hr' b' hb'
    obtain ⟨r, hr, rfl⟩ := List.mem_map.mp hr'
    split_ifs at hb' ⊢
    exact h.reversed r hr b' hb'
  · intro r' hr' hd
    obtain ⟨r, hr, rfl⟩ := List.mem_map.mp hr'
    split_ifs at hd ⊢ <;> exact h.later r hr hd
  · intro r' hr' hv d hd hid ht
    obtain ⟨r, hr, rfl⟩ := List.mem_map.mp hr'
    split_ifs at hv hid ⊢ <;> exact h.memos r hr hv d hd hid ht

end Rows

section Docs

variable {docs : List ArDoc} {rows : List AppRow} {f g g' : Id → Dec}

/-- What other documents name of a document is the same. -/
structure SameLinks (d d' : ArDoc) : Prop where
  id : d'.id = d.id
  txnType : d'.txnType = d.txnType
  holdsDeposit : d'.holdsDeposit = d.holdsDeposit
  fromDepositId : d'.fromDepositId = d.fromDepositId
  sourceTxnId : d'.sourceTxnId = d.sourceTxnId
  sourcePaymentId : d'.sourcePaymentId = d.sourcePaymentId

theorem Linked.map (h : Linked docs) {F : ArDoc → ArDoc} (hF : ∀ d ∈ docs, SameLinks d (F d)) :
    Linked (docs.map F) where
  drawn := by
    intro d' hd' q hq
    obtain ⟨d, hd, rfl⟩ := List.mem_map.mp hd'
    obtain ⟨ht, e, he, hid, hholds⟩ := h.drawn d hd q ((hF d hd).fromDepositId ▸ hq)
    exact ⟨(hF d hd).txnType.trans ht, F e, List.mem_map_of_mem he, (hF e he).id.trans hid,
      (hF e he).holdsDeposit.trans hholds⟩
  bounced := by
    intro d' hd' ht q hq
    obtain ⟨d, hd, rfl⟩ := List.mem_map.mp hd'
    obtain ⟨e, he, hid, hpay⟩ := h.bounced d hd ((hF d hd).txnType ▸ ht) q
      ((hF d hd).sourceTxnId ▸ hq)
    exact ⟨F e, List.mem_map_of_mem he, (hF e he).id.trans hid, (hF e he).txnType.trans hpay⟩
  refunded := by
    intro d' hd' q hq
    obtain ⟨d, hd, rfl⟩ := List.mem_map.mp hd'
    obtain ⟨e, he, hid⟩ := h.refunded d hd q ((hF d hd).sourcePaymentId ▸ hq)
    exact ⟨F e, List.mem_map_of_mem he, (hF e he).id.trans hid⟩
  inside := by
    intro d' hd' ht q hq
    obtain ⟨d, hd, rfl⟩ := List.mem_map.mp hd'
    obtain ⟨hfrom, e, he, hid, hown⟩ := h.inside d hd ((hF d hd).txnType ▸ ht) q
      ((hF d hd).sourceTxnId ▸ hq)
    exact ⟨(hF d hd).fromDepositId ▸ hfrom, F e, List.mem_map_of_mem he, (hF e he).id.trans hid,
      (hF e he).fromDepositId.trans hown⟩
  held := by
    intro d' hd' hholds
    obtain ⟨d, hd, rfl⟩ := List.mem_map.mp hd'
    exact (hF d hd).txnType.trans (h.held d hd ((hF d hd).holdsDeposit ▸ hholds))

def ArDoc.void (d : ArDoc) : ArDoc :=
  { d with status := .void, lines := d.lines ++ d.lines.map ArLine.reversed }

def voidIn (i : Id) (docs : List ArDoc) : List ArDoc :=
  docs.map fun d => if d.id = i then d.void else d

theorem mem_voidIn {i : Id} {d : ArDoc} (h : d ∈ docs) :
    (if d.id = i then d.void else d) ∈ voidIn i docs :=
  List.mem_map_of_mem (f := fun d => if d.id = i then d.void else d) h

theorem mem_voidIn_of_ne {i : Id} {d : ArDoc} (h : d ∈ docs) (hi : d.id ≠ i) : d ∈ voidIn i docs := by
  have := mem_voidIn (i := i) h
  rwa [if_neg hi] at this

/-- A document that was there is still there, void or not. -/
theorem exists_voidIn {i : Id} {d : ArDoc} (h : d ∈ docs) : ∃ d' ∈ voidIn i docs,
    d'.id = d.id ∧ d'.txnType = d.txnType ∧ d'.contactId = d.contactId ∧ d'.total = d.total ∧
      d'.holdsDeposit = d.holdsDeposit ∧ d'.fromDepositId = d.fromDepositId := by
  refine ⟨_, mem_voidIn h, ?_⟩
  split_ifs <;> exact ⟨rfl, rfl, rfl, rfl, rfl, rfl⟩

theorem usedOf_voidIn_le (h : CreditsFit strict docs rows f g) (i p : Id) :
    usedOf (voidIn i docs) rows p ≤ usedOf docs rows p := by
  have hdraws : tally (fun d => d.fromDepositId = some p ∧ d.status = .posted) ArDoc.total
      (voidIn i docs) ≤
        tally (fun d => d.fromDepositId = some p ∧ d.status = .posted) ArDoc.total docs := by
    unfold voidIn
    rw [tally_map]
    refine (tally_congr (fun _ _ => rfl) fun d _ _ => ?_).trans_le
      (tally_mono (w := ArDoc.total) (fun d _ hp => ?_) fun d hd hp => ?_)
    · split_ifs <;> rfl
    · simp only [decide_eq_true_eq] at hp ⊢
      split_ifs at hp
      · simp [ArDoc.void] at hp
      · exact hp
    · refine h.nonneg d hd (.inr ?_)
      simp [(of_decide_eq_true hp).1]
  have hrefunds : tally (fun d => d.refunds p) ArDoc.total (voidIn i docs) ≤
      tally (fun d => d.refunds p) ArDoc.total docs := by
    unfold voidIn
    rw [tally_map]
    refine (tally_congr (fun _ _ => rfl) fun d _ _ => ?_).trans_le
      (tally_mono (w := ArDoc.total) (fun d _ hp => ?_) fun d hd hp => ?_)
    · split_ifs <;> rfl
    · split_ifs at hp
      · simp [ArDoc.void, ArDoc.refunds] at hp
      · exact hp
    · refine h.nonneg d hd (.inl ?_)
      have : d.sourcePaymentId = some p ∧ d.txnType = .customerRefund ∧ d.status = .posted := by
        simpa [ArDoc.refunds] using hp
      exact ⟨this.2.1, by simp [this.1]⟩
  unfold usedOf
  linarith

/-- A document is voided that no row needs any more. -/
theorem CreditsFit.voidDoc (h : CreditsFit strict docs rows f g) {i : Id}
    (hstand : ∀ r ∈ rows, r.voided = false → r.paymentId ≠ i)
    (hlive : ∀ r ∈ rows, r.live → r.invoiceId ≠ i)
    (hrev : ∀ r ∈ rows, r.reversedByTxnId ≠ some i) : CreditsFit strict (voidIn i docs) rows f g where
  toLinked := h.toLinked.map fun d _ => by split_ifs <;> exact ⟨rfl, rfl, rfl, rfl, rfl, rfl⟩
  invoices := by
    intro d' hd' hi
    obtain ⟨d, hd, rfl⟩ := List.mem_map.mp hd'
    split_ifs at hi ⊢ <;> exact h.invoices d hd hi
  credits := by
    intro d' hd' hc
    obtain ⟨d, hd, rfl⟩ := List.mem_map.mp hd'
    split_ifs at hc ⊢
    · exact absurd hc.posted (by simp [ArDoc.void])
    · exact (add_le_add_left (usedOf_voidIn_le h i d.id) _).trans (h.credits d hd hc)
  links := by
    intro r hr hv
    obtain ⟨d, hd, t, ht, hdid, htid, hpay⟩ := h.links r hr hv
    obtain ⟨t', ht', hid, htype, hcontact, -⟩ := exists_voidIn (i := i) ht
    have hne : d.id ≠ i := hdid ▸ hstand r hr hv
    exact ⟨d, mem_voidIn_of_ne hd hne, t', ht', hdid, hid.trans htid, hpay.type, hpay.posted,
      hpay.notHeld, htype.trans hpay.invoice, fun hc => hcontact.trans (hpay.customer hc)⟩
  live := by
    intro r hr hl
    obtain ⟨t, ht, hid, hp⟩ := h.live r hr hl
    exact ⟨t, mem_voidIn_of_ne ht (hid ▸ hlive r hr hl), hid, hp⟩
  reversed := by
    intro r hr b hb
    obtain ⟨hv, e, he, hid, q, hq, hor⟩ := h.reversed r hr b hb
    refine ⟨hv, e, mem_voidIn_of_ne he ?_, hid, q, hq, hor.imp_right ?_⟩
    · rintro rfl
      exact hrev r hr (hid ▸ hb)
    · rintro ⟨d, hd, hdid, hfrom⟩
      obtain ⟨d', hd', hid', -, -, -, -, hfrom'⟩ := exists_voidIn (i := i) hd
      exact ⟨d', hd', hid'.trans hdid, hfrom'.trans hfrom⟩
  later := h.later
  memos := by
    intro r hr hv d' hd' hid ht
    obtain ⟨d, hd, rfl⟩ := List.mem_map.mp hd'
    split_ifs at hid ht <;> exact h.memos r hr hv d hd hid ht
  customer := by
    intro d' hd' ht
    obtain ⟨d, hd, rfl⟩ := List.mem_map.mp hd'
    split_ifs at ht ⊢ <;> exact h.customer d hd ht
  nonneg := by
    intro d' hd' ht
    obtain ⟨d, hd, rfl⟩ := List.mem_map.mp hd'
    split_ifs at ht ⊢ <;> exact h.nonneg d hd ht

/-- A document whose header and lines an edit writes anew. -/
def ArDoc.rewritten (date : String) (contactId : Id) (total : Dec) (lines : List ArLine)
    (d : ArDoc) : ArDoc :=
  { d with txnDate := date, contactId := some contactId, total := total, lines := lines }

end Docs

section Edit

variable {docs : List ArDoc} {rows : List AppRow} {f g g' : Id → Dec} {i : Id} {date : String}
  {contactId : Id} {total : Dec} {lines : List ArLine}

def editIn (i : Id) (date : String) (contactId : Id) (total : Dec) (lines : List ArLine)
    (docs : List ArDoc) : List ArDoc :=
  docs.map fun d => if d.id = i then d.rewritten date contactId total lines else d

variable (i date contactId total lines) in
theorem mem_editIn {d : ArDoc} (h : d ∈ docs) :
    (if d.id = i then d.rewritten date contactId total lines else d) ∈
      editIn i date contactId total lines docs :=
  List.mem_map_of_mem (f := fun d => if d.id = i then d.rewritten date contactId total lines else d) h

variable (i date contactId total lines) in
theorem exists_editIn {d : ArDoc} (h : d ∈ docs) :
    ∃ d' ∈ editIn i date contactId total lines docs,
      d'.id = d.id ∧ d'.status = d.status ∧ d'.holdsDeposit = d.holdsDeposit ∧
        d'.fromDepositId = d.fromDepositId := by
  refine ⟨_, mem_editIn i date contactId total lines h, ?_⟩
  split_ifs <;> exact ⟨rfl, rfl, rfl, rfl⟩

/-- The total of a document that neither draws on a credit nor refunds one uses none. -/
theorem usedOf_editIn
    (hd : ∀ d ∈ docs, d.id = i → d.txnType ≠ .customerRefund ∧ d.fromDepositId = none) (p : Id) :
    usedOf (editIn i date contactId total lines docs) rows p = usedOf docs rows p := by
  unfold usedOf editIn
  rw [tally_map, tally_map]
  congr 1
  · congr 1
    refine tally_congr (fun d _ => ?_) fun d hmem hp => ?_
    · split_ifs <;> rfl
    · split_ifs at hp ⊢ with hid
      · simp [ArDoc.rewritten, (hd d hmem hid).2] at hp
      · rfl
  · refine tally_congr (fun d _ => ?_) fun d hmem hp => ?_
    · split_ifs <;> rfl
    · split_ifs at hp ⊢ with hid
      · simp [ArDoc.rewritten, ArDoc.refunds, (hd d hmem hid).1] at hp
      · rfl

/-- A document is edited; with `strict`, it keeps its client or has no row that stands. -/
theorem CreditsFit.editDoc (h : CreditsFit strict docs rows f g)
    (hd : ∀ d ∈ docs, d.id = i → d.txnType ≠ .customerRefund ∧ d.fromDepositId = none)
    (hcustomer : strict → (∀ d ∈ docs, d.id = i → d.contactId = some contactId) ∨
      ∀ r ∈ rows, r.voided = false → r.paymentId ≠ i ∧ r.invoiceId ≠ i)
    (hf : ∀ d ∈ docs, d.id = i → d.txnType = .invoice → paidBy rows i + f i ≤ max total 0)
    (hg : ∀ d ∈ docs, d.id ≠ i → g' d.id ≤ g d.id)
    (hi : ∀ d ∈ docs, d.id = i → d.txnType.isCreditSource →
      usedOf docs rows i + g' i ≤ max total 0) :
    CreditsFit strict (editIn i date contactId total lines docs) rows f g' where
  toLinked := h.toLinked.map fun d _ => by split_ifs <;> exact ⟨rfl, rfl, rfl, rfl, rfl, rfl⟩
  invoices := by
    intro d' hd' ht
    obtain ⟨d, hmem, rfl⟩ := List.mem_map.mp hd'
    split_ifs at ht ⊢ with hid
    · subst hid
      exact hf d hmem rfl ht
    · exact h.invoices d hmem ht
  credits := by
    intro d' hd' hc
    rw [usedOf_editIn hd]
    obtain ⟨d, hmem, rfl⟩ := List.mem_map.mp hd'
    split_ifs at hc ⊢ with hid
    · subst hid
      exact hi d hmem rfl hc.type
    · have := h.credits d hmem hc
      have := hg d hmem hid
      linarith
  links := by
    intro r hr hv
    obtain ⟨d, hmem, t, ht, hdid, htid, hpay⟩ := h.links r hr hv
    refine ⟨_, mem_editIn i date contactId total lines hmem, _,
      mem_editIn i date contactId total lines ht, ?_, ?_, ?_, ?_, ?_, ?_, fun hstrict => ?_⟩
    · split_ifs <;> exact hdid
    · split_ifs <;> exact htid
    · split_ifs <;> exact hpay.type
    · split_ifs <;> exact hpay.posted
    · split_ifs <;> exact hpay.notHeld
    · split_ifs <;> exact hpay.invoice
    · have hsame := hpay.customer hstrict
      rcases hcustomer hstrict with hc | hnone
      · have hcontact : ∀ e ∈ docs,
            (if e.id = i then e.rewritten date contactId total lines else e).contactId = e.contactId :=
          fun e he => by
            split_ifs with hid
            · exact (hc e he hid).symm
            · rfl
        rw [hcontact d hmem, hcontact t ht, hsame]
      · obtain ⟨hp, hinv⟩ := hnone r hr hv
        rwa [if_neg (htid ▸ hinv), if_neg (hdid ▸ hp)]
  live := by
    intro r hr hl
    obtain ⟨t, ht, hid, hp⟩ := h.live r hr hl
    obtain ⟨t', ht', hid', hp', -⟩ := exists_editIn i date contactId total lines ht
    exact ⟨t', ht', hid'.trans hid, hp'.trans hp⟩
  reversed := by
    intro r hr b hb
    obtain ⟨hv, e, he, hid, q, hq, hor⟩ := h.reversed r hr b hb
    refine ⟨hv, _, mem_editIn i date contactId total lines he, ?_, q, ?_, hor.imp_right ?_⟩
    · split_ifs <;> exact hid
    · split_ifs <;> exact hq
    · rintro ⟨d, hmem, hdid, hfrom⟩
      obtain ⟨d', hd', hid', -, -, hfrom'⟩ := exists_editIn i date contactId total lines hmem
      exact ⟨d', hd', hid'.trans hdid, hfrom'.trans hfrom⟩
  later := h.later
  memos := by
    intro r hr hv d' hd' hid ht
    obtain ⟨d, hmem, rfl⟩ := List.mem_map.mp hd'
    split_ifs at hid ht <;> exact h.memos r hr hv d hmem hid ht
  customer := by
    intro d' hd' ht
    obtain ⟨d, hmem, rfl⟩ := List.mem_map.mp hd'
    split_ifs at ht ⊢
    · simp [ArDoc.rewritten]
    · exact h.customer d hmem ht
  nonneg := by
    intro d' hd' ht
    obtain ⟨d, hmem, rfl⟩ := List.mem_map.mp hd'
    split_ifs at ht ⊢ with hid
    · simp [ArDoc.rewritten, hd d hmem hid] at ht
    · exact h.nonneg d hmem ht

end Edit

end MyBooks
