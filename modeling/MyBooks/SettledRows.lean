import MyBooks.CreditUse
import MyBooks.Units

/-!
# Rows written

What an operation has checked is set aside (`Kept.reserve`), and each row that it then writes takes
its own share of that: `Writes strict docs write x y` says that `write` takes `x i` of what is set aside
of invoice `i` and `y p` of credit `p`, wherever the documents `docs` are there. Writes are put together
by `Writes.comp` and, for the loops, by `Writes.foldl`.
-/

namespace MyBooks

variable {strict : Prop}

section Kept

/-- The store is in order, with `f` of the invoices and `g` of the credits set aside. -/
structure Kept (strict : Prop) (s : Receivables) (f g : Id → Dec) : Prop where
  keyed : Keyed s
  paid : Paid strict s
  fits : CreditsFit strict s.docs s.rows f g

variable {s : Receivables} {f f' g g' : Id → Dec}

theorem Kept.mono (h : Kept strict s f g) (hf : ∀ i, f' i ≤ f i) (hg : ∀ p, g' p ≤ g p) : Kept strict s f' g' :=
  ⟨h.keyed, h.paid, h.fits.mono hf hg⟩

theorem Kept.reserve (h : Kept strict s f g)
    (hf : ∀ d ∈ s.docs, d.txnType = .invoice → paidBy s.rows d.id + f' d.id ≤ max d.total 0)
    (hg : ∀ d ∈ s.docs, d.IsCredit → usedOf s.docs s.rows d.id + g' d.id ≤ max d.total 0) :
    Kept strict s f' g' :=
  ⟨h.keyed, h.paid, { h.fits with invoices := hf, credits := hg }⟩

theorem Kept.withTax (h : Kept strict s f g) (tax : List TaxRow) : Kept strict { s with taxRows := tax } f g :=
  ⟨h.keyed.of_ids rfl (le_refl _) rfl rfl, ⟨h.paid.cents, h.paid.whole, h.paid.shows⟩, h.fits⟩

theorem docs_withTax (s : Receivables) (tax : List TaxRow) :
    ({ s with taxRows := tax } : Receivables).docs = s.docs := rfl

theorem Kept.doc_eq (h : Kept strict s f g) {d e : ArDoc} (hd : d ∈ s.docs) (he : e ∈ s.docs)
    (hid : d.id = e.id) : d = e := h.keyed.doc_eq_of_id hd he hid

theorem Paid.addTxn (h : Paid strict s) (hfits : CreditsFit strict s.docs s.rows f g) {t : ArTxn}
    (hfresh : ∀ d ∈ s.docs, d.id ≠ t.id) (ht : Places t.toArDoc.scale t.total)
    (hshows : t.txnType = .invoice → t.Shows strict 0) : Paid strict (s.addTxn t) where
  cents := by
    intro t' ht'
    rcases List.mem_append.mp ht' with ht' | ht'
    · exact h.cents t' ht'
    · obtain rfl := List.mem_singleton.mp ht'
      exact ht
  whole := h.whole
  shows := by
    intro t' ht' hinv
    rcases List.mem_append.mp ht' with ht' | ht'
    · exact h.shows t' ht' hinv
    · obtain rfl := List.mem_singleton.mp ht'
      rw [rows_addTxn, paidBy_fresh hfits hfresh]
      exact hshows hinv

/-- A document is added, with what is to be taken for it set aside. -/
theorem Kept.addTxn (h : Kept strict s f g) {t : ArTxn} (ht : t.id = s.nextId)
    (hcents : Places t.toArDoc.scale t.total) (hshows : t.txnType = .invoice → t.Shows strict 0)
    (hjoins : Joins s.docs t.toArDoc) (hf : t.txnType = .invoice → f t.id ≤ max t.total 0)
    (hg : ∀ p, g' p + t.toArDoc.takes p ≤ g p ∨ p = t.id) (hown : t.toArDoc.takes t.id = 0)
    (hgt : t.toArDoc.IsCredit → g' t.id ≤ max t.total 0) : Kept strict (s.addTxn t) f g' where
  keyed := h.keyed.addTxn ht
  paid := h.paid.addTxn h.fits hjoins.fresh hcents hshows
  fits := by
    rw [docs_addTxn, rows_addTxn]
    exact h.fits.addDoc hjoins hf hg hown hgt

/-- A row is written, and moves its invoice. -/
theorem Kept.addRow (h : Kept strict s f g) {r : AppRow} (hid : r.id = s.nextId) (hw : r.Whole)
    (hl : r.live) (hlinks : PayLinks strict s.docs r.paymentId r.invoiceId)
    (hposted : ∃ t ∈ s.docs, t.id = r.invoiceId ∧ t.status = .posted)
    (hpos : r.appliedDate ≠ none ∨ (∃ d ∈ s.docs, d.id = r.paymentId ∧ d.txnType = .creditMemo) →
      0 < r.amount)
    (hf : ∀ i, f' i + (if r.invoiceId = i then r.settledBy else 0) ≤ f i)
    (hg : ∀ d ∈ s.docs, d.IsCredit →
      g' d.id + (if r.paymentId = d.id then r.amount else 0) ≤ g d.id) :
    Kept strict (moveInvoicePaid (s.addRow r) r.invoiceId r.settledBy) f' g' where
  keyed := (h.keyed.addRow hid).move _ _
  paid := h.paid.apply hw hl
  fits := by
    rw [docs_moveInvoicePaid, rows_moveInvoicePaid, docs_addRow, rows_addRow]
    exact h.fits.addRow hl hlinks hposted hpos hf hg

end Kept

section Writes

variable {docs : List ArDoc}

/-- `write` takes `x` of the invoices and `y` of the credits from what is set aside. -/
def Writes (strict : Prop) (docs : List ArDoc) (write : Receivables → Receivables) (x y : Id → Dec) : Prop :=
  ∀ ⦃s f g u v⦄, Kept strict s f g → docs ⊆ s.docs → (∀ i, u i + x i ≤ f i) →
    (∀ p, v p + y p ≤ g p) → Kept strict (write s) u v ∧ docs ⊆ (write s).docs

theorem Writes.none : Writes strict docs id 0 0 := fun _ _ _ _ _ h hdocs hf hg =>
  ⟨h.mono (fun i => by simpa using hf i) fun p => by simpa using hg p, hdocs⟩

theorem Writes.comp {w w' : Receivables → Receivables} {x x' y y' : Id → Dec}
    (h : Writes strict docs w x y) (h' : Writes strict docs w' x' y') :
    Writes strict docs (fun s => w' (w s)) (x + x') (y + y') := by
  intro s f g f' g' hs hdocs hf hg
  obtain ⟨h1, hdocs1⟩ := h (u := f' + x') (v := g' + y') hs hdocs
    (fun i => by simpa [add_assoc, add_comm, add_left_comm] using hf i)
    (fun p => by simpa [add_assoc, add_comm, add_left_comm] using hg p)
  exact h' h1 hdocs1 (fun i => le_refl _) fun p => le_refl _

theorem Writes.weaken {w : Receivables → Receivables} {x x' y y' : Id → Dec}
    (h : Writes strict docs w x y) (hx : ∀ i, x i ≤ x' i) (hy : ∀ p, y p ≤ y' p) : Writes strict docs w x' y' :=
  fun _ _ _ _ _ hs hdocs hf hg => h hs hdocs
    (fun i => (add_le_add_right (hx i) _).trans (hf i))
    fun p => (add_le_add_right (hy p) _).trans (hg p)

theorem Writes.foldl {α : Type*} {step : Receivables → α → Receivables} {x y : α → Id → Dec} :
    ∀ {l : List α}, (∀ a ∈ l, Writes strict docs (fun s => step s a) (x a) (y a)) →
      Writes strict docs (fun s => l.foldl step s) (fun i => (l.map fun a => x a i).sum)
        fun p => (l.map fun a => y a p).sum
  | [], _ => Writes.none
  | a :: l, h => by
    refine ((h a List.mem_cons_self).comp
      (Writes.foldl fun b hb => h b (List.mem_cons_of_mem _ hb))).weaken (fun i => ?_) fun p => ?_
    · rw [List.map_cons, List.sum_cons, Pi.add_apply]
    · rw [List.map_cons, List.sum_cons, Pi.add_apply]

/-- The share of one invoice or one credit. -/
def only (i : Id) (x : Dec) : Id → Dec := fun j => if i = j then x else 0

@[simp] theorem only_self (i : Id) (x : Dec) : only i x i = x := if_pos rfl

theorem only_of_ne {i j : Id} (h : i ≠ j) (x : Dec) : only i x j = 0 := if_neg h

/-- A row of whole cents that a payment of the invoice's customer may have. -/
structure MayWrite (strict : Prop) (docs : List ArDoc) (p i : Id) : Prop where
  links : PayLinks strict docs p i
  posted : ∃ t ∈ docs, t.id = i ∧ t.status = .posted

theorem MayWrite.mono {docs' : List ArDoc} {p i : Id} (h : MayWrite strict docs p i) (hsub : docs ⊆ docs') :
    MayWrite strict docs' p i :=
  ⟨h.links.mono hsub, let ⟨t, ht, h⟩ := h.posted; ⟨t, hsub ht, h⟩⟩

theorem writes_credit {p i : Id} {x : Dec} {appliedDate : Option String} {appliedInTxnId : Option Id}
    (hx : Cents x) (h0 : 0 < x) (h : MayWrite strict docs p i) :
    Writes strict docs (fun s => writeCredit appliedDate appliedInTxnId p s (i, x)) (only i x) (only p x) := by
  intro s f g f' g' hs hdocs hf hg
  have h' := h.mono hdocs
  have hround : round4 x = x := round4_of_cents hx
  have hsettled : (creditRow s.nextId p i x appliedDate appliedInTxnId).settledBy = x := by
    simp [creditRow, AppRow.settledBy, hround]
  have hkept : Kept strict _ f' g' := Kept.addRow (r := creditRow s.nextId p i x appliedDate appliedInTxnId)
    hs rfl
    ⟨by simpa [creditRow, hround] using hx, Places.zero, Places.zero,
      by simpa [creditRow, hround] using h0.le, le_refl _, le_refl _⟩
    rfl h'.links h'.posted (fun _ => by simpa [creditRow, hround] using h0)
    (fun j => by rw [hsettled]; exact hf j)
    (fun d _ _ => by simpa only [creditRow, hround, only] using hg d.id)
  rw [hsettled] at hkept
  refine ⟨hkept, ?_⟩
  unfold writeCredit
  rw [docs_moveInvoicePaid, docs_addRow]
  exact hdocs

/-- What an application of a payment takes off its invoice. -/
def ValidatedApplication.settled (a : ValidatedApplication) : Dec := a.amount + a.discount + a.writeOff

structure ValidatedApplication.Whole (a : ValidatedApplication) : Prop where
  amount : Cents a.amount
  discount : Cents a.discount
  writeOff : Cents a.writeOff
  amount_nonneg : 0 ≤ a.amount
  discount_nonneg : 0 ≤ a.discount
  writeOff_nonneg : 0 ≤ a.writeOff

/-- The row of an application of a payment's own. -/
def applicationRow (id paymentId : Id) (accounts : SettleAccounts) (a : ValidatedApplication) :
    AppRow :=
  { id := id, paymentId := paymentId, invoiceId := a.inv.id, amount := round4 a.amount
    writeOffAmount := round4 a.writeOff
    writeOffAccountId := if 0 < a.writeOff then accounts.writeOffAccountId else none
    discountAmount := round4 a.discount
    discountAccountId := if 0 < a.discount then accounts.discountAccountId else none
    appliedDate := none, appliedInTxnId := none, voided := false, reversedByTxnId := none }

/-- Besides the row and its invoice, an application only writes tax rows. -/
theorem writeApplication_eq (facts : PaymentFacts) (companyId : Option Id) (p : Id)
    (accounts : SettleAccounts) (s : Receivables) (a : SharedApplication) :
    ∃ tax, writeApplication facts companyId p accounts s a =
      { moveInvoicePaid (s.addRow (applicationRow s.nextId p accounts a.1)) a.1.inv.id a.1.settled with
        taxRows := tax } := by
  unfold writeApplication writeShareRows
  by_cases hc : (facts.rowCompany (companyId.or a.1.inv.companyId)).isNone
  · exact ⟨s.taxRows, by simp only [hc, if_true]; rfl⟩
  · exact ⟨_, by simp only [hc]; rfl⟩

theorem writes_application {facts : PaymentFacts} {companyId : Option Id} {p : Id}
    {accounts : SettleAccounts} {a : SharedApplication} (ha : a.1.Whole)
    (h : MayWrite strict docs p a.1.inv.id)
    (hpay : ∃ d ∈ docs, d.id = p ∧ d.txnType = .customerPayment) :
    Writes strict docs (fun s => writeApplication facts companyId p accounts s a)
      (only a.1.inv.id a.1.settled) (only p a.1.amount) := by
  intro s f g f' g' hs hdocs hf hg
  have h' := h.mono hdocs
  obtain ⟨tax, heq⟩ := writeApplication_eq facts companyId p accounts s a
  have hamount : (applicationRow s.nextId p accounts a.1).amount = a.1.amount :=
    round4_of_cents ha.amount
  have hdiscount : (applicationRow s.nextId p accounts a.1).discountAmount = a.1.discount :=
    round4_of_cents ha.discount
  have hwriteOff : (applicationRow s.nextId p accounts a.1).writeOffAmount = a.1.writeOff :=
    round4_of_cents ha.writeOff
  have hsettled : (applicationRow s.nextId p accounts a.1).settledBy = a.1.settled := by
    rw [AppRow.settledBy, hamount, hdiscount, hwriteOff, ValidatedApplication.settled]
  have hown : (applicationRow s.nextId p accounts a.1).appliedDate ≠ none ∨
      (∃ d ∈ s.docs, d.id = p ∧ d.txnType = .creditMemo) →
        0 < (applicationRow s.nextId p accounts a.1).amount := by
    rintro (hd | ⟨d, hd, hid, ht⟩)
    · exact absurd rfl hd
    · obtain ⟨e, he, hid', ht'⟩ := hpay
      rw [hs.doc_eq hd (hdocs he) (hid.trans hid'.symm), ht'] at ht
      cases ht
  have hkept : Kept strict _ f' g' := Kept.addRow (r := applicationRow s.nextId p accounts a.1) hs rfl
    ⟨hamount ▸ ha.1, hdiscount ▸ ha.2, hwriteOff ▸ ha.3, hamount ▸ ha.4, hdiscount ▸ ha.5,
      hwriteOff ▸ ha.6⟩
    rfl h'.links h'.posted hown
    (fun j => by rw [hsettled]; exact hf j)
    (fun d _ _ => by rw [hamount]; exact hg d.id)
  rw [hsettled] at hkept
  simp only [heq]
  refine ⟨hkept.withTax tax, ?_⟩
  rw [docs_withTax, docs_moveInvoicePaid, docs_addRow]
  exact hdocs

theorem sum_only {α : Type*} (i j : Id) (w : α → Dec) (l : List α) :
    (l.map fun a => only i (w a) j).sum = only i (l.map w).sum j := by
  by_cases h : i = j
  · simp [only, h]
  · simp [only, h]

/-- A row of a draw: an amount for an invoice of the deposit's customer. -/
structure DrawsOn (docs : List ArDoc) (deposit : ArDoc) (row : Id × Dec) : Prop where
  cents : Cents row.2
  pos : 0 < row.2
  invoice : ∃ t ∈ docs, t.id = row.1 ∧ t.txnType = .invoice ∧ t.status = .posted ∧
    t.contactId = deposit.contactId

theorem writes_draw {ar : Id} {facts : PaymentFacts} {companyId : Option Id} {deposit : ArDoc}
    {date : String} {rows : List (Id × Dec)} {insideOf : Option Id} (hmem : deposit ∈ docs)
    (htype : deposit.txnType.isCreditSource) (hholds : deposit.holdsDeposit)
    (hrows : ∀ row ∈ rows, DrawsOn docs deposit row)
    (hinside : ∀ p, insideOf = some p → ∃ e ∈ docs, e.id = p ∧ e.fromDepositId = none) :
    Writes strict docs (fun s => postDraw s ar facts companyId deposit date rows insideOf)
      (fun i => (rows.map fun row => only row.1 row.2 i).sum)
      (only deposit.id (rows.map Prod.snd).sum) := by
  intro s f g f' g' hs hdocs hf hg
  have hcents : Cents (rows.map Prod.snd).sum := Places.sum fun x hx => by
    obtain ⟨row, hrow, rfl⟩ := List.mem_map.mp hx
    exact (hrows row hrow).cents
  have hnonneg : 0 ≤ (rows.map Prod.snd).sum := List.sum_nonneg fun x hx => by
    obtain ⟨row, hrow, rfl⟩ := List.mem_map.mp hx
    exact (hrows row hrow).pos.le
  have hround := round4_of_cents hcents
  have hfresh := hs.keyed.fresh.1
  have hne : deposit.id ≠ s.nextId := hfresh _ (hdocs hmem)
  unfold postDraw
  simp only [hround]
  set draw : ArTxn :=
    { id := s.nextId, txnType := .customerPayment, companyId := companyId.or deposit.companyId
      contactId := deposit.contactId, txnDate := date, total := (rows.map Prod.snd).sum
      fromDepositId := some deposit.id, sourceTxnId := insideOf
      lines := [⟨facts.customerDeposits, (rows.map Prod.snd).sum, 0, none⟩,
        ⟨ar, 0, (rows.map Prod.snd).sum, deposit.contactId⟩] } with hdraw
  have htakes : ∀ p, draw.toArDoc.takes p = only deposit.id (rows.map Prod.snd).sum p := fun p => by
    simp [ArDoc.takes, ArDoc.refunds, hdraw, only]
  have hjoins : Joins s.docs draw.toArDoc := by
    refine ⟨hfresh, fun h hh => ⟨rfl, deposit, hdocs hmem, Option.some.inj hh, hholds⟩, fun p hp => ?_,
      fun ht => ?_, fun _ p hp => ⟨by simp [hdraw], ?_⟩, fun _ => ?_, fun _ => hnonneg,
      fun _ => rfl⟩
    · cases hp
    · cases ht
    · obtain ⟨e, he, h⟩ := hinside p hp
      exact ⟨e, hdocs he, h⟩
    · exact hs.fits.customer deposit (hdocs hmem) htype
  have hkept : Kept strict _ f (g' + only s.nextId (rows.map Prod.snd).sum) := hs.addTxn (t := draw)
    rfl (hcents.scaled _) (fun ht => by cases ht) hjoins (fun ht => by cases ht)
    (fun p => by
      by_cases hp : p = s.nextId
      · exact .inr hp
      · refine .inl ?_
        rw [htakes, Pi.add_apply, only_of_ne (Ne.symm hp), add_zero]
        exact hg p)
    (by rw [htakes]; exact only_of_ne hne _) fun hc => by cases hc.own
  have hsub : docs ⊆ (s.addTxn draw).docs := fun d hd => by
    rw [docs_addTxn]
    exact List.mem_append_left _ (hdocs hd)
  have hdraw_mem : draw.toArDoc ∈ (s.addTxn draw).docs := by simp
  have hwrites : Writes strict (s.addTxn draw).docs
      (fun s' => rows.foldl (writeCredit none none s.nextId) s')
      (fun i => (rows.map fun row => only row.1 row.2 i).sum)
      fun p => (rows.map fun row => only s.nextId row.2 p).sum := Writes.foldl fun row hrow => by
    obtain ⟨t, ht, hid, htype, hposted, hcontact⟩ := (hrows row hrow).invoice
    exact writes_credit (hrows row hrow).cents (hrows row hrow).pos
      ⟨⟨_, hdraw_mem, t, hsub ht, rfl, hid, rfl, rfl, rfl, htype, fun _ => hcontact⟩, t, hsub ht, hid, hposted⟩
  obtain ⟨h', hdocs'⟩ := hwrites (u := f') (v := g') hkept (List.Subset.refl _) hf fun p => by
    beta_reduce
    rw [sum_only, Pi.add_apply]
  exact ⟨h', fun d hd => hdocs' (hsub hd)⟩

theorem holds_eq {s : Receivables} (hk : Keyed s) {d : ArDoc} (hd : d ∈ s.docs) :
    s.holds d.id = d.holdsDeposit := by
  rw [Receivables.holds, hk.doc? hd]
  rfl

/-- A credit of a settlement, with the document it comes from. -/
structure CreditOf (docs : List ArDoc) (c : ValidatedCredit) (src : ArDoc) : Prop where
  mem : src ∈ docs
  id : src.id = c.sourcePaymentId
  type : src.txnType.isCreditSource
  posted : src.status = .posted
  cents : Cents c.amount
  pos : 0 < c.amount
  invoice : ∃ t ∈ docs, t.id = c.inv.id ∧ t.txnType = .invoice ∧ t.status = .posted ∧
    t.contactId = src.contactId

theorem writes_drawAll {ar : Id} {facts : PaymentFacts} {companyId : Option Id} {date : String}
    {p : Id} {credits : List ValidatedCredit} {deposit : ArDoc} (hmem : deposit ∈ docs)
    (htype : deposit.txnType.isCreditSource) (hholds : deposit.holdsDeposit)
    (hcredits : ∀ c ∈ credits, c.sourcePaymentId = deposit.id → CreditOf docs c deposit)
    (hinside : ∃ e ∈ docs, e.id = p ∧ e.fromDepositId = none) :
    Writes strict docs (fun s => drawAll ar facts companyId date p credits s deposit.id)
      (fun i => ((credits.filter fun c => c.sourcePaymentId = deposit.id).map
        fun c => only c.inv.id c.amount i).sum)
      fun q => ((credits.filter fun c => c.sourcePaymentId = deposit.id).map
        fun c => only c.sourcePaymentId c.amount q).sum := by
  intro s f g f' g' hs hdocs hf hg
  simp only [drawAll, hs.keyed.doc? (hdocs hmem)]
  refine writes_draw hmem htype hholds (fun row hrow => ?_)
    (fun q hq => Option.some.inj hq ▸ hinside) hs hdocs ?_ ?_
  · obtain ⟨c, hc, rfl⟩ := List.mem_map.mp hrow
    obtain ⟨hc, hsrc⟩ := List.mem_filter.mp hc
    have h := hcredits c hc (of_decide_eq_true hsrc)
    exact ⟨h.cents, h.pos, h.invoice⟩
  · intro i
    beta_reduce
    rw [List.map_map]
    exact hf i
  · intro q
    rw [List.map_map, ← sum_only]
    refine le_trans (le_of_eq ?_) (hg q)
    congr 2
    refine List.map_congr_left fun c hc => ?_
    rw [of_decide_eq_true (List.mem_filter.mp hc).2]
    rfl

/-- A settlement takes what its applications and credits come to. -/
theorem writes_settlement {ar : Id} {facts : PaymentFacts} {companyId : Option Id} {p : Id}
    {date : String} {apps : List SharedApplication} {credits : List ValidatedCredit}
    {accounts : SettleAccounts} (happs : ∀ a ∈ apps, a.1.Whole ∧ MayWrite strict docs p a.1.inv.id)
    (hcredits : ∀ c ∈ credits, ∃ src, CreditOf docs c src)
    (hpay : ∃ e ∈ docs, e.id = p ∧ e.txnType = .customerPayment ∧ e.fromDepositId = none) :
    Writes strict docs (fun s => writeSettlement s ar facts companyId p date apps credits accounts)
      (fun i => (apps.map fun a => only a.1.inv.id a.1.settled i).sum +
        (credits.map fun c => only c.inv.id c.amount i).sum)
      fun q => only p (apps.map fun a => a.1.amount).sum q +
        (credits.map fun c => only c.sourcePaymentId c.amount q).sum := by
  intro s f g f' g' hs hdocs hf hg
  obtain ⟨pay, hmem, hid, htype, hown⟩ := hpay
  have hinside : ∃ e ∈ docs, e.id = p ∧ e.fromDepositId = none := ⟨pay, hmem, hid, hown⟩
  have hdraws : Writes strict docs
      (fun s' => (((credits.map (·.sourcePaymentId)).filter s.holds).eraseDups).foldl
        (drawAll ar facts companyId date p credits) s') _ _ := Writes.foldl
      (x := fun h i => ((credits.filter fun c => c.sourcePaymentId = h).map
        fun c => only c.inv.id c.amount i).sum)
      (y := fun h q => ((credits.filter fun c => c.sourcePaymentId = h).map
        fun c => only c.sourcePaymentId c.amount q).sum) fun h hh => by
    obtain ⟨hh, hholds⟩ := List.mem_filter.mp (List.mem_eraseDups.mp hh)
    obtain ⟨c, hc, rfl⟩ := List.mem_map.mp hh
    obtain ⟨src, hsrc⟩ := hcredits c hc
    rw [← hsrc.id] at hholds ⊢
    refine writes_drawAll hsrc.mem hsrc.type ?_ (fun c' hc' hid => ?_) hinside
    · rwa [holds_eq hs.keyed (hdocs hsrc.mem)] at hholds
    · obtain ⟨src', hsrc'⟩ := hcredits c' hc'
      rwa [hs.doc_eq (hdocs hsrc.mem) (hdocs hsrc'.mem) (hid.symm.trans hsrc'.id.symm)]
  have hown : Writes strict docs (fun s' => apps.foldl (writeApplication facts companyId p accounts) s') _ _ :=
    Writes.foldl fun a ha => writes_application (happs a ha).1 (happs a ha).2 ⟨pay, hmem, hid, htype⟩
  have hrest : Writes strict docs
      (fun s' => (credits.filter fun c => s.holds c.sourcePaymentId = false).foldl
        (fun s' c => writeCredit (some date) (some p) c.sourcePaymentId s' (c.inv.id, c.amount)) s')
      _ _ := Writes.foldl fun c hc => by
    obtain ⟨hc, hholds⟩ := List.mem_filter.mp hc
    obtain ⟨src, hsrc⟩ := hcredits c hc
    obtain ⟨t, ht, hid, htype, hposted, hcontact⟩ := hsrc.invoice
    have hheld : src.holdsDeposit = false := by
      rw [← holds_eq hs.keyed (hdocs hsrc.mem), hsrc.id]
      exact of_decide_eq_true hholds
    exact writes_credit hsrc.cents hsrc.pos
      ⟨⟨src, hsrc.mem, t, ht, hsrc.id, hid, hsrc.type, hsrc.posted, hheld, htype, fun _ => hcontact⟩,
        t, ht, hid, hposted⟩
  refine ((hdraws.comp hown).comp hrest) hs hdocs (fun i => ?_) fun q => ?_
  · have hsum := sum_by_key (·.sourcePaymentId) s.holds (fun c => only c.inv.id c.amount i) credits
    have hle := hf i
    simp only [Pi.add_apply] at hle ⊢
    linarith
  · have hsum := sum_by_key (·.sourcePaymentId) s.holds
      (fun c => only c.sourcePaymentId c.amount q) credits
    have hle := hg q
    simp only [Pi.add_apply, sum_only] at hle ⊢
    linarith

end Writes

end MyBooks
