import MyBooks.SettledRows

/-!
# What the checks of a payment's body leave room for

A body that passes `parseSettlement`, `validateSources` and `validateInvoices` has amounts of whole cents,
its rows come to no more than the invoices' balances and its credits to no more than is left of their
sources. So everything it will write may be set aside (`Validated.reserve`).
-/

namespace MyBooks

variable {strict : Prop}

section Room

variable {s : Receivables}

theorem Keyed.txn? (h : Keyed s) {t : ArTxn} (ht : t ∈ s.txns) : s.txn? t.id = some t := by
  have hids : (s.txns.map ArTxn.toArDoc).map ArDoc.id = s.txns.map fun t => t.id := by
    rw [List.map_map]
    rfl
  have hn : (s.txns.map fun t => t.id).Nodup := hids ▸ h.docs
  unfold Receivables.txn?
  rcases hf : s.txns.find? (fun t' => t'.id = t.id) with _ | t'
  · have := List.find?_eq_none.mp hf t ht
    simp at this
  · have hid : t'.id = t.id := by simpa using List.find?_some hf
    rw [hf, List.inj_on_of_nodup_map hn (List.mem_of_find?_eq_some hf) ht hid]

/-- What is payable on an invoice keeps it within its total. -/
theorem Kept.payable_room (h : Kept strict s 0 0) {t : ArTxn} (ht : t ∈ s.txns) (hinv : t.txnType = .invoice)
    {x : Dec} (hx : x ≤ payableCents t) : paidBy s.rows t.id + x ≤ max t.total 0 := by
  have hfit := h.fits.invoices _ (doc_of_txn ht) hinv
  simp only [Pi.zero_apply, add_zero] at hfit
  unfold payableCents at hx
  split_ifs at hx
  · linarith
  · have hshows := h.paid.shows t ht hinv
    have htotal := h.paid.cents t ht
    rw [ArDoc.scale_eq_two (by simp [hinv])] at htotal
    have hdue : Cents t.balanceDue := hshows.due ▸ htotal.sub (paidBy_cents h.paid.whole _)
    rw [round2_of_cents hdue, hshows.due] at hx
    rcases le_total (t.total - paidBy s.rows t.id) 0 with hle | hle
    · rw [max_eq_right hle] at hx
      linarith
    · rw [max_eq_left hle] at hx
      exact le_max_of_le_left (by linarith)

theorem payable_posted {t : ArTxn} (h : 0 < payableCents t) : t.status = .posted := by
  unfold payableCents at h
  split_ifs at h with hc
  · exact absurd h (lt_irrefl _)
  · by_contra hp
    exact hc (.inl hp)

theorem sum_liveApplications (s : Receivables) (p : Id) :
    ((liveApplications s p).map AppRow.amount).sum =
      tally (fun r => r.paymentId = p ∧ r.live) AppRow.amount s.rows :=
  ((List.perm_insertionSort _ _).map _).sum_eq

theorem liveBounce_none {p : Id} (h : liveBounce s p = none) : ∀ e ∈ s.docs, ¬e.bounces p := by
  simpa [liveBounce] using h

theorem creditRemaining_bounced {d : ArDoc} (h : (liveBounce s d.id).isSome) :
    creditRemaining s d = 0 := if_pos (.inr h)

/-- A payment of its own money that has not bounced has no reversed rows. -/
theorem Kept.live_of_stands {f g : Id → Dec} (h : Kept strict s f g) {d : ArDoc} (hd : d ∈ s.docs)
    (hown : d.fromDepositId = none) (hb : liveBounce s d.id = none) {r : AppRow} (hr : r ∈ s.rows)
    (hp : r.paymentId = d.id) (hv : r.voided = false) : r.live := by
  by_contra hl
  have hrev : r.reversedByTxnId ≠ none := fun hn => hl (by simp [AppRow.live, hv, hn])
  obtain ⟨b, hrb⟩ := Option.ne_none_iff_exists'.mp hrev
  obtain ⟨-, e, he, -, q, hq, hor⟩ := h.fits.reversed r hr b hrb
  rcases hor with rfl | ⟨d', hd', hid, hfrom⟩
  · exact liveBounce_none hb e he (hp ▸ hq)
  · rw [h.doc_eq hd' hd (hid.trans hp), hown] at hfrom
    cases hfrom

/-- The standing rows of a payment of its own money that has not bounced are live. -/
theorem Kept.tally_stands (h : Kept strict s 0 0) {d : ArDoc} (hd : d ∈ s.docs)
    (hown : d.fromDepositId = none) (hb : liveBounce s d.id = none) :
    tally (fun r => r.paymentId = d.id ∧ r.voided = false) AppRow.amount s.rows =
      ((liveApplications s d.id).map AppRow.amount).sum := by
  rw [sum_liveApplications]
  refine tally_congr (fun r hr => ?_) fun _ _ _ => rfl
  rw [Bool.eq_iff_iff, decide_eq_true_eq, decide_eq_true_eq]
  refine and_congr_right fun hp => ⟨fun hv => h.live_of_stands hd hown hb hr hp hv, fun hl => ?_⟩
  exact (of_decide_eq_true hl).1

/-- A credit that is not held is used for its live rows and its refunds. -/
theorem Kept.usedOf_notHeld (h : Kept strict s 0 0) {d : ArDoc} (hd : d ∈ s.docs)
    (hown : d.fromDepositId = none) (hb : liveBounce s d.id = none) (hh : d.holdsDeposit = false) :
    usedOf s.docs s.rows d.id =
      ((liveApplications s d.id).map AppRow.amount).sum + liveRefundTotal s d.id := by
  have hdraws : tally (fun e => e.fromDepositId = some d.id ∧ e.status = .posted) ArDoc.total
      s.docs = 0 := by
    refine tally_eq_zero fun e he => decide_eq_false fun ⟨hfrom, _⟩ => ?_
    obtain ⟨-, e', he', hid, hholds⟩ := h.fits.drawn e he _ hfrom
    rw [h.doc_eq he' hd hid, hh] at hholds
    cases hholds
  rw [usedOf, h.tally_stands hd hown hb, hdraws, add_zero]
  rfl

/-- A held credit is used for its draws and its refunds. -/
theorem Kept.usedOf_held (h : Kept strict s 0 0) {d : ArDoc} (hd : d ∈ s.docs)
    (hh : d.holdsDeposit) :
    usedOf s.docs s.rows d.id =
      ((liveDraws s d.id).map ArDoc.total).sum + liveRefundTotal s d.id := by
  have hrows : tally (fun r => r.paymentId = d.id ∧ r.voided = false) AppRow.amount s.rows = 0 := by
    refine tally_eq_zero fun r hr => decide_eq_false fun ⟨hp, hv⟩ => ?_
    obtain ⟨e, he, t, -, hid, -, hpay⟩ := h.fits.links r hr hv
    have := hpay.notHeld
    rw [h.doc_eq he hd (hid.trans hp), hh] at this
    cases this
  rw [usedOf, hrows, zero_add]
  rfl

/-- What is left of a credit is what its uses leave of its total. -/
theorem Kept.credit_room (h : Kept strict s 0 0) {d : ArDoc} (hd : d ∈ s.docs) (hc : d.IsCredit)
    {x : Dec} (hx : x ≤ creditRemaining s d) :
    usedOf s.docs s.rows d.id + x ≤ max d.total 0 := by
  have hfit := h.fits.credits d hd hc
  simp only [Pi.zero_apply, add_zero] at hfit
  rcases hb : liveBounce s d.id with _ | b
  · have hle : max (d.total - usedOf s.docs s.rows d.id) 0 = creditRemaining s d := by
      unfold creditRemaining
      rw [if_neg (by simp [hc.posted, hb])]
      rcases hh : d.holdsDeposit with _ | _
      · rw [if_neg (by simp), h.usedOf_notHeld hd hc.own hb hh, ← sub_sub]
      · rw [if_pos rfl, h.usedOf_held hd hh, ← sub_sub, depositRemaining,
          if_neg (by simp [hh, hc.posted, hb])]
    rw [← hle] at hx
    rcases le_total (d.total - usedOf s.docs s.rows d.id) 0 with hneg | hpos
    · rw [max_eq_right hneg] at hx
      linarith
    · rw [max_eq_left hpos] at hx
      exact le_max_of_le_left (by linarith)
  · rw [creditRemaining_bounced (by simp [hb])] at hx
    linarith

theorem creditRemaining_posted {d : ArDoc} (h : 0 < creditRemaining s d) : d.status = .posted := by
  unfold creditRemaining at h
  split_ifs at h with hc
  · exact absurd h (lt_irrefl _)
  · by_contra hp
    exact hc (.inl hp)
  · by_contra hp
    exact hc (.inl hp)

end Room

section Parsed

theorem wholeCents_ok {v x : Dec} {field : String} (h : wholeCents v field = .ok x) :
    Cents x ∧ 0 ≤ x := by
  unfold wholeCents at h
  obtain ⟨hc, h⟩ := ite_error_eq_ok.mp h
  obtain ⟨hneg, hround⟩ := not_or.mp hc
  obtain rfl := Except.ok.inj h
  exact ⟨not_not.mp hround ▸ Cents.round2 _, not_lt.mp hneg⟩

structure ParsedApp.Whole (a : ParsedApp) : Prop where
  amount : Cents a.amount
  discount : Cents a.discount
  writeOff : Cents a.writeOff
  amount_nonneg : 0 ≤ a.amount
  discount_nonneg : 0 ≤ a.discount
  writeOff_nonneg : 0 ≤ a.writeOff

theorem parseApps_whole : ∀ {as : List ReceiveApplication} {seen : List Id} {apps : List ParsedApp},
    parseApps seen as = .ok apps → ∀ a ∈ apps, a.Whole
  | [], seen, apps, h => by
    rw [parseApps] at h
    simp [← Except.ok.inj h]
  | a :: as, seen, apps, h => by
    rw [parseApps] at h
    split_ifs at h
    obtain ⟨amount, hamount, h⟩ := bind_eq_ok.mp h
    obtain ⟨discount, hdiscount, h⟩ := bind_eq_ok.mp h
    obtain ⟨writeOff, hwriteOff, h⟩ := bind_eq_ok.mp h
    obtain ⟨rest, hrest, h⟩ := bind_eq_ok.mp h
    obtain rfl := pure_eq_ok.mp h
    intro b hb
    rcases List.mem_cons.mp hb with rfl | hb
    · exact ⟨(wholeCents_ok hamount).1, (wholeCents_ok hdiscount).1, (wholeCents_ok hwriteOff).1,
        (wholeCents_ok hamount).2, (wholeCents_ok hdiscount).2, (wholeCents_ok hwriteOff).2⟩
    · exact parseApps_whole hrest b hb

theorem parseCredits_whole : ∀ {cs : List ReceiveCreditApplication} {credits : List ParsedCredit},
    parseCredits cs = .ok credits → ∀ c ∈ credits, Cents c.amount ∧ 0 ≤ c.amount
  | [], credits, h => by
    rw [parseCredits] at h
    simp [← Except.ok.inj h]
  | c :: cs, credits, h => by
    rw [parseCredits] at h
    obtain ⟨amount, hamount, h⟩ := bind_eq_ok.mp h
    obtain ⟨rest, hrest, h⟩ := bind_eq_ok.mp h
    obtain rfl := pure_eq_ok.mp h
    intro b hb
    rcases List.mem_cons.mp hb with rfl | hb
    · exact wholeCents_ok hamount
    · exact parseCredits_whole hrest b hb

structure Parsed.Whole (p : Parsed) : Prop where
  amount : Cents p.amount
  amount_nonneg : 0 ≤ p.amount
  apps : ∀ a ∈ p.apps, a.Whole
  credits : ∀ c ∈ p.credits, Cents c.amount ∧ 0 ≤ c.amount
  cash : p.cash ≤ p.amount

theorem parseSettlement_whole {input : ReceivePaymentInput} {parsed : Parsed}
    (h : parseSettlement input = .ok parsed) : parsed.Whole := by
  unfold parseSettlement at h
  obtain ⟨amount, hamount, h⟩ := bind_eq_ok.mp h
  simp only [] at h
  obtain ⟨-, h⟩ := ite_error_eq_ok.mp h
  obtain ⟨apps, happs, h⟩ := bind_eq_ok.mp h
  obtain ⟨credits, hcredits, h⟩ := bind_eq_ok.mp h
  obtain ⟨hcash, h⟩ := ite_error_eq_ok.mp h
  obtain ⟨-, h⟩ := ite_error_eq_ok.mp h
  obtain rfl := Except.ok.inj h
  exact ⟨(wholeCents_ok hamount).1, (wholeCents_ok hamount).2, parseApps_whole happs,
    parseCredits_whole hcredits, not_lt.mp hcash⟩

end Parsed

section Validated

variable {s : Receivables} {customerId : Id} {companyId : Option Id} {date : String}
  {parsed : Parsed}

/-- A source of credit as its check leaves it: `total` of it is wanted. -/
structure SourceOk (s : Receivables) (customerId : Id) (total : Dec) (src : ArDoc) : Prop where
  type : src.txnType.isCreditSource
  customer : src.contactId = some customerId
  notBounced : liveBounce s src.id = none
  own : src.fromDepositId = none
  enough : total ≤ creditRemaining s src

theorem validateSource_ok {id : Id} {total : Dec} {u : Unit}
    (h : validateSource s customerId companyId date id total = .ok u) :
    ∃ src ∈ s.docs, src.id = id ∧ SourceOk s customerId total src := by
  unfold validateSource at h
  rcases hd : s.doc? id with _ | src
  · simp [hd] at h
  · obtain ⟨hmem, rfl⟩ := doc?_mem hd
    simp only [hd, assertApplyDate, bind_eq_ok, ensure_ok] at h
    obtain ⟨-, ⟨htype, -⟩, -, -, -, hcustomer, -, hbounce, -, hown, henough⟩ := h
    exact ⟨src, hmem, rfl, htype, hcustomer, hbounce, hown, henough⟩

theorem validateSources_ok {credits : List ParsedCredit} {u : Unit}
    (h : validateSources s credits customerId companyId date = .ok u) :
    ∀ c ∈ credits, ∃ src ∈ s.docs, src.id = c.sourcePaymentId ∧
      SourceOk s customerId (wanted credits c.sourcePaymentId) src := fun c hc =>
  validateSource_ok (forM_ok h c.sourcePaymentId
    (List.mem_eraseDups.mpr (List.mem_map_of_mem hc)))

/-- An invoice of the customer. -/
structure InvoiceOk (s : Receivables) (customerId : Id) (inv : ArTxn) : Prop where
  mem : inv ∈ s.txns
  type : inv.txnType = .invoice
  customer : inv.contactId = some customerId

theorem checkInvoice_ok {id : Id} {expected : Option Dec} {inv : ArTxn}
    (h : checkInvoice s id expected customerId companyId = .ok inv) :
    InvoiceOk s customerId inv ∧ inv.id = id := by
  unfold checkInvoice at h
  rcases ht : s.txn? id with _ | t
  · simp [ht] at h
  · simp only [ht, bind_eq_ok, ensure_ok, pure_eq_ok] at h
    obtain ⟨-, ⟨htype, -⟩, -, hcustomer, -, -, rfl⟩ := h
    obtain ⟨hmem, hid⟩ := txn?_mem ht
    exact ⟨⟨hmem, htype, hcustomer⟩, hid⟩

theorem checkApps_ok : ∀ {as : List ParsedApp} {apps : List ValidatedApplication},
    checkApps s customerId companyId as = .ok apps → (∀ a ∈ as, a.Whole) →
      ∀ a ∈ apps, a.Whole ∧ 0 < a.settled ∧ InvoiceOk s customerId a.inv
  | [], apps, h, _ => by
    rw [checkApps] at h
    simp [← Except.ok.inj h]
  | a :: as, apps, h, hw => by
    rw [checkApps] at h
    obtain ⟨inv, hinv, h⟩ := bind_eq_ok.mp h
    obtain ⟨rest, hrest, h⟩ := bind_eq_ok.mp h
    obtain rfl := pure_eq_ok.mp h
    obtain ⟨ha, has⟩ := List.forall_mem_cons.mp hw
    have htail := checkApps_ok hrest has
    intro b hb
    split_ifs at hb with hpos
    · rcases List.mem_cons.mp hb with rfl | hb
      · exact ⟨⟨ha.1, ha.2, ha.3, ha.4, ha.5, ha.6⟩, hpos, (checkInvoice_ok hinv).1⟩
      · exact htail b hb
    · exact htail b hb

/-- The applications that are left come to what all of them do. -/
theorem checkApps_sum {w : Id → Dec → Dec → Dec → Dec} (hzero : ∀ i, w i 0 0 0 = 0) :
    ∀ {as : List ParsedApp} {apps : List ValidatedApplication},
      checkApps s customerId companyId as = .ok apps → (∀ a ∈ as, a.Whole) →
        (apps.map fun a => w a.inv.id a.amount a.discount a.writeOff).sum =
          (as.map fun a => w a.invoiceId a.amount a.discount a.writeOff).sum
  | [], apps, h, _ => by
    rw [checkApps] at h
    simp [← Except.ok.inj h]
  | a :: as, apps, h, hw => by
    rw [checkApps] at h
    obtain ⟨inv, hinv, h⟩ := bind_eq_ok.mp h
    obtain ⟨rest, hrest, h⟩ := bind_eq_ok.mp h
    obtain rfl := pure_eq_ok.mp h
    obtain ⟨ha, has⟩ := List.forall_mem_cons.mp hw
    have htail := checkApps_sum hzero hrest has
    rw [List.map_cons, List.sum_cons, ← htail, ← (checkInvoice_ok hinv).2]
    split_ifs with hpos
    · rw [List.map_cons, List.sum_cons]
    · have h1 := ha.amount_nonneg
      have h2 := ha.discount_nonneg
      have h3 := ha.writeOff_nonneg
      have hamount : a.amount = 0 := by linarith
      have hdiscount : a.discount = 0 := by linarith
      have hwriteOff : a.writeOff = 0 := by linarith
      rw [hamount, hdiscount, hwriteOff, hzero, zero_add]

theorem checkCredits_ok : ∀ {cs : List ParsedCredit} {credits : List ValidatedCredit},
    checkCredits s customerId companyId cs = .ok credits →
      (∀ c ∈ cs, Cents c.amount ∧ 0 ≤ c.amount) →
      ∀ c ∈ credits, Cents c.amount ∧ 0 < c.amount ∧ InvoiceOk s customerId c.inv ∧
        ∃ c' ∈ cs, c'.sourcePaymentId = c.sourcePaymentId
  | [], credits, h, _ => by
    rw [checkCredits] at h
    simp [← Except.ok.inj h]
  | c :: cs, credits, h, hw => by
    rw [checkCredits] at h
    obtain ⟨inv, hinv, h⟩ := bind_eq_ok.mp h
    obtain ⟨rest, hrest, h⟩ := bind_eq_ok.mp h
    obtain rfl := pure_eq_ok.mp h
    obtain ⟨hc, hcs⟩ := List.forall_mem_cons.mp hw
    have htail : ∀ b ∈ rest, Cents b.amount ∧ 0 < b.amount ∧ InvoiceOk s customerId b.inv ∧
        ∃ c' ∈ c :: cs, c'.sourcePaymentId = b.sourcePaymentId := fun b hb =>
      let ⟨h1, h2, h3, c', hc', h4⟩ := checkCredits_ok hrest hcs b hb
      ⟨h1, h2, h3, c', List.mem_cons_of_mem _ hc', h4⟩
    intro b hb
    split_ifs at hb with hpos
    · rcases List.mem_cons.mp hb with rfl | hb
      · exact ⟨hc.1, hpos, (checkInvoice_ok hinv).1, c, List.mem_cons_self, rfl⟩
      · exact htail b hb
    · exact htail b hb

theorem checkCredits_sum {w : Id → Id → Dec → Dec} (hzero : ∀ p i, w p i 0 = 0) :
    ∀ {cs : List ParsedCredit} {credits : List ValidatedCredit},
      checkCredits s customerId companyId cs = .ok credits →
        (∀ c ∈ cs, Cents c.amount ∧ 0 ≤ c.amount) →
        (credits.map fun c => w c.sourcePaymentId c.inv.id c.amount).sum =
          (cs.map fun c => w c.sourcePaymentId c.invoiceId c.amount).sum
  | [], credits, h, _ => by
    rw [checkCredits] at h
    simp [← Except.ok.inj h]
  | c :: cs, credits, h, hw => by
    rw [checkCredits] at h
    obtain ⟨inv, hinv, h⟩ := bind_eq_ok.mp h
    obtain ⟨rest, hrest, h⟩ := bind_eq_ok.mp h
    obtain rfl := pure_eq_ok.mp h
    obtain ⟨hc, hcs⟩ := List.forall_mem_cons.mp hw
    have htail := checkCredits_sum hzero hrest hcs
    rw [List.map_cons, List.sum_cons, ← htail, ← (checkInvoice_ok hinv).2]
    split_ifs with hpos
    · rw [List.map_cons, List.sum_cons]
    · rw [le_antisymm (not_lt.mp hpos) hc.2, hzero, zero_add]

/-- What the applications and credits of a body take off an invoice. -/
def Validated.takesOff (v : Validated) (i : Id) : Dec :=
  (v.apps.map fun a => only a.inv.id a.settled i).sum +
    (v.credits.map fun c => only c.inv.id c.amount i).sum

/-- What the credits of a body take of a source. -/
def Validated.takesFrom (v : Validated) (p : Id) : Dec :=
  (v.credits.map fun c => only c.sourcePaymentId c.amount p).sum

theorem sum_filter_only {α : Type*} (key : α → Id) (w : α → Dec) (i : Id) :
    ∀ l : List α, ((l.filter fun a => key a = i).map w).sum = (l.map fun a => only (key a) (w a) i).sum
  | [] => rfl
  | a :: l => by
    rw [List.map_cons, List.sum_cons, ← sum_filter_only key w i l, List.filter_cons]
    by_cases h : key a = i
    · simp [h]
    · simp [h, only]

/-- The checks of the invoices, against the balances and the credits that were sent. -/
structure Validated.Ok (s : Receivables) (customerId : Id) (parsed : Parsed) (v : Validated) :
    Prop where
  apps : ∀ a ∈ v.apps, a.Whole ∧ 0 < a.settled ∧ InvoiceOk s customerId a.inv
  credits : ∀ c ∈ v.credits, Cents c.amount ∧ 0 < c.amount ∧ InvoiceOk s customerId c.inv ∧
    ∃ c' ∈ parsed.credits, c'.sourcePaymentId = c.sourcePaymentId
  cash : (v.apps.map fun a => a.amount).sum = parsed.cash
  wanted : ∀ p, v.takesFrom p = wanted parsed.credits p
  payable : ∀ t ∈ s.txns, v.takesOff t.id ≤ payableCents t
  noApps : parsed.apps = [] → v.apps = []

theorem payableCents_nonneg (t : ArTxn) : 0 ≤ payableCents t := by
  unfold payableCents
  split_ifs
  · exact le_refl _
  · exact le_max_right _ _

theorem settled_of_not_mem {i : Id} (h : i ∉ parsed.invoiceIds) : parsed.settled i = 0 := by
  rw [Parsed.invoiceIds, List.mem_eraseDups, List.mem_append, List.mem_map, List.mem_map] at h
  obtain ⟨happs, hcredits⟩ := not_or.mp h
  have h1 : parsed.apps.filter (fun a => a.invoiceId = i) = [] := by
    rw [List.filter_eq_nil_iff]
    exact fun a ha he => happs ⟨a, ha, of_decide_eq_true he⟩
  have h2 : parsed.credits.filter (fun c => c.invoiceId = i) = [] := by
    rw [List.filter_eq_nil_iff]
    exact fun c hc he => hcredits ⟨c, hc, of_decide_eq_true he⟩
  rw [Parsed.settled, h1, h2]
  simp

theorem validateInvoices_ok (hk : Keyed s) (hw : parsed.Whole) {v : Validated}
    (h : validateInvoices s parsed customerId companyId = .ok v) : v.Ok s customerId parsed := by
  unfold validateInvoices at h
  obtain ⟨apps, happs, h⟩ := bind_eq_ok.mp h
  obtain ⟨credits, hcredits, h⟩ := bind_eq_ok.mp h
  obtain ⟨u, hcaps, h⟩ := bind_eq_ok.mp h
  obtain rfl := pure_eq_ok.mp h
  refine ⟨checkApps_ok happs hw.apps, checkCredits_ok hcredits hw.credits, ?_, fun p => ?_,
    fun t ht => ?_, fun hnil => ?_⟩
  · exact checkApps_sum (w := fun _ x _ _ => x) (fun _ => rfl) happs hw.apps
  · rw [Validated.takesFrom, wanted, sum_filter_only]
    exact checkCredits_sum (w := fun q _ x => only q x p) (fun q _ => by simp [only]) hcredits
      hw.credits
  · have hsum : Validated.takesOff ⟨apps, credits⟩ t.id = parsed.settled t.id := by
      rw [Validated.takesOff, Parsed.settled, sum_filter_only, sum_filter_only]
      congr 1
      · exact checkApps_sum (w := fun j x y z => only j (x + y + z) t.id)
          (fun j => by simp [only]) happs hw.apps
      · exact checkCredits_sum (w := fun _ j x => only j x t.id) (fun _ j => by simp [only]) hcredits
          hw.credits
    rw [hsum]
    by_cases hmem : t.id ∈ parsed.invoiceIds
    · have hcap := forM_ok hcaps t.id hmem
      rw [checkCap, hk.txn? ht] at hcap
      exact ensure_ok.mp hcap
    · rw [settled_of_not_mem hmem]
      exact payableCents_nonneg t
  · rw [hnil, checkApps] at happs
    exact (Except.ok.inj happs).symm

theorem only_nonneg {i : Id} {x : Dec} (h : 0 ≤ x) (j : Id) : 0 ≤ only i x j := by
  unfold only
  split_ifs
  · exact h
  · exact le_refl _

theorem le_sum_only {α : Type*} {k : α → Id} {w : α → Dec} {l : List α} (h : ∀ a ∈ l, 0 ≤ w a)
    {a : α} (ha : a ∈ l) : w a ≤ (l.map fun b => only (k b) (w b) (k a)).sum := by
  have hle := List.single_le_sum (l := l.map fun b => only (k b) (w b) (k a)) (fun x hx => by
    obtain ⟨b, hb, rfl⟩ := List.mem_map.mp hx
    exact only_nonneg (h b hb) _) _ (List.mem_map_of_mem ha)
  simpa using hle

theorem sum_only_nonneg {α : Type*} {k : α → Id} {w : α → Dec} {l : List α}
    (h : ∀ a ∈ l, 0 ≤ w a) (i : Id) : 0 ≤ (l.map fun b => only (k b) (w b) i).sum :=
  List.sum_nonneg fun x hx => by
    obtain ⟨b, hb, rfl⟩ := List.mem_map.mp hx
    exact only_nonneg (h b hb) _

variable {v : Validated}

theorem Validated.Ok.app_posted (h : v.Ok s customerId parsed) {a : ValidatedApplication}
    (ha : a ∈ v.apps) : a.inv.status = .posted := by
  obtain ⟨-, hpos, hinv⟩ := h.apps a ha
  have h1 : a.settled ≤ _ := le_sum_only (k := fun a : ValidatedApplication => a.inv.id)
    (fun b hb => (h.apps b hb).2.1.le) ha
  have h2 := sum_only_nonneg (k := fun c : ValidatedCredit => c.inv.id)
    (fun c hc => (h.credits c hc).2.1.le) a.inv.id
  have h3 := h.payable a.inv hinv.mem
  unfold Validated.takesOff at h3
  exact payable_posted (by linarith)

theorem Validated.Ok.credit_posted (h : v.Ok s customerId parsed) {c : ValidatedCredit}
    (hc : c ∈ v.credits) : c.inv.status = .posted := by
  obtain ⟨-, hpos, hinv, -⟩ := h.credits c hc
  have h1 := sum_only_nonneg (k := fun a : ValidatedApplication => a.inv.id)
    (fun b hb => (h.apps b hb).2.1.le) c.inv.id
  have h2 : c.amount ≤ _ := le_sum_only (k := fun c : ValidatedCredit => c.inv.id)
    (fun b hb => (h.credits b hb).2.1.le) hc
  have h3 := h.payable c.inv hinv.mem
  unfold Validated.takesOff at h3
  exact payable_posted (by linarith)

/-- The sources that a body's credits come from are checked. -/
def SourcesOk (s : Receivables) (customerId : Id) (credits : List ParsedCredit) : Prop :=
  ∀ c ∈ credits, ∃ src ∈ s.docs, src.id = c.sourcePaymentId ∧
    SourceOk s customerId (MyBooks.wanted credits c.sourcePaymentId) src

/-- What a checked body writes may be set aside. -/
theorem Validated.Ok.reserve (h : v.Ok s customerId parsed) (hs : Kept strict s 0 0)
    (hsources : SourcesOk s customerId parsed.credits) : Kept strict s v.takesOff v.takesFrom := by
  refine Kept.reserve hs (fun d hd hinv => ?_) fun d hd hc => ?_
  · obtain ⟨t, ht, rfl⟩ := List.mem_map.mp hd
    exact hs.payable_room ht hinv (h.payable t ht)
  · rw [h.wanted]
    by_cases hmem : ∃ c ∈ parsed.credits, c.sourcePaymentId = d.id
    · obtain ⟨c, hc', hid⟩ := hmem
      obtain ⟨src, hsrc, hsid, hok⟩ := hsources c hc'
      rw [hs.doc_eq hsrc hd (hsid.trans hid), hid] at hok
      exact hs.credit_room hd hc hok.enough
    · have hzero : MyBooks.wanted parsed.credits d.id = 0 := by
        rw [MyBooks.wanted, List.filter_eq_nil_iff.mpr fun c hc' he => hmem ⟨c, hc', of_decide_eq_true he⟩]
        rfl
      rw [hzero]
      exact hs.fits.credits d hd hc

/-- Each credit of a checked body comes from a posted source of the customer's. -/
theorem Validated.Ok.creditOf (h : v.Ok s customerId parsed)
    (hsources : SourcesOk s customerId parsed.credits) {c : ValidatedCredit} (hc : c ∈ v.credits) :
    ∃ src, CreditOf s.docs c src := by
  obtain ⟨hcents, hpos, hinv, c', hc', hid⟩ := h.credits c hc
  obtain ⟨src, hsrc, hsid, hok⟩ := hsources c' hc'
  have hle : c.amount ≤ v.takesFrom c.sourcePaymentId :=
    le_sum_only (k := fun c : ValidatedCredit => c.sourcePaymentId)
      (fun b hb => (h.credits b hb).2.1.le) hc
  rw [h.wanted, ← hid] at hle
  have henough := hok.enough
  exact ⟨src, hsrc, hsid.trans hid, hok.type, creditRemaining_posted (by linarith), hcents, hpos,
    c.inv.toArDoc, doc_of_txn hinv.mem, rfl, hinv.type, h.credit_posted hc,
    hinv.customer.trans hok.customer.symm⟩

theorem sharesOf_fst {facts : PaymentFacts} {on : Bool} :
    ∀ {as : List ValidatedApplication} {shared : List SharedApplication},
      sharesOf facts on as = .ok shared → shared.map Prod.fst = as
  | [], shared, h => by
    rw [sharesOf] at h
    rw [← Except.ok.inj h]
    rfl
  | a :: as, shared, h => by
    rw [sharesOf] at h
    split_ifs at h
    all_goals
      obtain ⟨shares, -, h⟩ := bind_eq_ok.mp h
      obtain ⟨rest, hrest, h⟩ := bind_eq_ok.mp h
      obtain rfl := pure_eq_ok.mp h
      rw [List.map_cons, sharesOf_fst hrest]

theorem attachShares_fst {chart : Chart} {facts : PaymentFacts} {on : Bool}
    {apps : List ValidatedApplication} {r : List SharedApplication × SettlementTax}
    (h : attachShares chart facts on apps = .ok r) : r.1.map Prod.fst = apps := by
  unfold attachShares at h
  obtain ⟨shared, hshared, h⟩ := bind_eq_ok.mp h
  simp only [] at h
  split_ifs at h
  · obtain rfl := pure_eq_ok.mp h
    exact sharesOf_fst hshared
  · rcases hstp : chart.system .salesTaxPayable with _ | stp
    · simp [hstp] at h
    · simp only [hstp] at h
      obtain rfl := pure_eq_ok.mp h
      exact sharesOf_fst hshared

end Validated

end MyBooks
