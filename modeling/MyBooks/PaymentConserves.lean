import MyBooks.PaymentCompute
import MyBooks.Tally

/-!
# A payment without problems conserves money

What the three passes give an invoice stays in whole cents and never goes below zero, and a credit is
used for what its rows say (`CreditRows.Uses`). So where nothing is reported each invoice's balance
is paid, discounted, written off, credited or left, and no credit gives more than it has
(`computePayment_conserves`).
-/

namespace MyBooks

/-- Everything given is in whole cents and not below zero. -/
structure Given.Whole (g : Given) : Prop where
  cash : ∀ id, 0 ≤ g.cash id ∧ Cents (g.cash id)
  disc : ∀ id, 0 ≤ g.disc id ∧ Cents (g.disc id)
  wo : ∀ id, 0 ≤ g.wo id ∧ Cents (g.wo id)
  cred : ∀ id, 0 ≤ g.cred id ∧ Cents (g.cred id)

section Given

variable {g : Given}

theorem update_whole {f : Id → Dec} (h : ∀ id, 0 ≤ f id ∧ Cents (f id)) {k : Id} {x : Dec}
    (hx : 0 ≤ x ∧ Cents x) (id : Id) :
    0 ≤ Function.update f k x id ∧ Cents (Function.update f k x id) := by
  by_cases hid : id = k
  · subst hid
    rwa [Function.update_self]
  · rw [Function.update_of_ne hid]
    exact h id

theorem Given.whole_empty : Given.Whole {} :=
  ⟨fun _ => ⟨le_rfl, Places.zero⟩, fun _ => ⟨le_rfl, Places.zero⟩, fun _ => ⟨le_rfl, Places.zero⟩,
    fun _ => ⟨le_rfl, Places.zero⟩⟩

theorem Given.Whole.setCash (h : g.Whole) {id : Id} {x : Dec} (hx : 0 ≤ x ∧ Cents x) :
    (g.setCash id x).Whole :=
  ⟨update_whole h.cash hx, h.disc, h.wo, h.cred⟩

theorem Given.Whole.left_cents (h : g.Whole) (inv : ComputeInvoice) : Cents (g.left inv) :=
  ((((Cents.round2 _).sub (h.cash _).2).sub (h.disc _).2).sub (h.wo _).2).sub (h.cred _).2

theorem Given.Whole.settled_cents (h : g.Whole) (inv : ComputeInvoice) : Cents (g.settled inv) :=
  (((h.cash _).2.add (h.disc _).2).add (h.wo _).2).add (h.cred _).2

theorem Given.Whole.remaining_cents (h : g.Whole) (inv : ComputeInvoice) : Cents (g.remaining inv) :=
  (Cents.round2 _).sub (h.settled_cents inv)

/-- What a taker of the rest takes is whole cents. -/
theorem max_min_whole {x y : Dec} (hx : Cents x) (hy : Cents y) :
    0 ≤ max (min x y) 0 ∧ Cents (max (min x y) 0) :=
  ⟨le_max_right _ _, (hx.min hy).max Places.zero⟩

end Given

section Typed

variable (byId : Id → Option ComputeInvoice)

theorem inputAmount_whole (x : Option MoneyInput) :
    0 ≤ (x.map (·.val)).getD 0 ∧ Cents ((x.map (·.val)).getD 0) := by
  cases x with
  | none => exact ⟨le_rfl, Places.zero⟩
  | some x => exact x.property

/-- The first pass gives whole cents, and no credit. -/
structure TypedRows.Ok (s : TypedRows) : Prop where
  whole : s.given.Whole
  cred : ∀ id, s.given.cred id = 0
  typedCash : Cents s.typedCash

theorem typedRow_ok {s : TypedRows} (h : s.Ok) (row : ApplicationInput) :
    (typedRow byId s row).Ok := by
  unfold typedRow
  split_ifs
  · exact ⟨h.whole, h.cred, h.typedCash⟩
  · rcases byId row.invoiceId with _ | inv
    · exact ⟨h.whole, h.cred, h.typedCash⟩
    · have hgiven : Given.Whole { s.given with
          disc := Function.update s.given.disc inv.invoiceId
            ((row.discountAmount.map (·.val)).getD 0)
          wo := Function.update s.given.wo inv.invoiceId
            ((row.writeOffAmount.map (·.val)).getD 0) } :=
        ⟨h.whole.cash, update_whole h.whole.disc (inputAmount_whole _),
          update_whole h.whole.wo (inputAmount_whole _), h.whole.cred⟩
      rcases row.amount with _ | c
      · exact ⟨hgiven, h.cred, h.typedCash⟩
      · exact ⟨hgiven.setCash c.property, h.cred, h.typedCash.add c.property.2⟩

theorem typedRows_ok (rows : List ApplicationInput) : (typedRows byId rows).Ok := by
  have hrun : ∀ (rows : List ApplicationInput) (s : TypedRows), s.Ok →
      (rows.foldl (typedRow byId) s).Ok := by
    intro rows
    induction rows with
    | nil => exact fun s h => h
    | cons row rows ih => exact fun s h => ih _ (typedRow_ok byId h row)
  exact hrun rows {} ⟨Given.whole_empty, fun _ => rfl, Places.zero⟩

end Typed

section Credits

variable {start : Id → Option Dec}

/-- The credits of `start` were used for what the rows say. Without a problem none is overdrawn. -/
structure CreditRows.Uses (start : Id → Option Dec) (s : CreditRows) : Prop where
  whole : s.given.Whole
  cred : ∀ id, s.given.cred id = tally (fun r => r.invoiceId = id) (·.amount) s.creditRows
  left : ∀ id, s.creditLeft id = (start id).map fun remaining =>
    remaining - tally (fun r => r.sourcePaymentId = id) (·.amount) s.creditRows
  leftOk : ∀ id left, s.creditLeft id = some left → Cents left ∧ (s.problems = [] → 0 ≤ left)
  rows : ∀ r ∈ s.creditRows, Cents r.amount

theorem tally_append_row (p : CreditUse → Bool) (rows : List CreditUse) (r : CreditUse) :
    tally p (·.amount) (if 0 < r.amount then rows ++ [r] else rows) =
      tally p (·.amount) rows + if p r then max r.amount 0 else 0 := by
  split_ifs with hpos hp hp
  · rw [tally_append, tally_cons, if_pos hp, tally_nil, add_zero, max_eq_left hpos.le]
  · rw [tally_append, tally_cons, if_neg hp, tally_nil, add_zero]
  · rw [max_eq_right (not_lt.mp hpos), add_zero]
  · rw [add_zero]

theorem creditAmount_whole {g : Given} (h : g.Whole) {inv : ComputeInvoice} {avail : Dec}
    (hcents : Cents avail) (amount : Option MoneyInput) :
    0 ≤ creditAmount g inv avail amount ∧ Cents (creditAmount g inv avail amount) := by
  cases amount with
  | none => exact max_min_whole hcents (h.left_cents inv)
  | some x => exact x.property

theorem CreditRows.Uses.use {s : CreditRows} (h : s.Uses start) {id : Id} {inv : ComputeInvoice}
    {avail x : Dec} (havail : s.creditLeft id = some avail) (hx : 0 ≤ x ∧ Cents x) :
    (s.use id inv avail x).Uses start := by
  have hcents := (h.leftOk _ _ havail).1
  have htally : ∀ p : CreditUse → Bool, tally p (·.amount) (s.use id inv avail x).creditRows =
      tally p (·.amount) s.creditRows + if p ⟨id, inv.invoiceId, x⟩ then x else 0 := fun p => by
    have := tally_append_row p s.creditRows ⟨id, inv.invoiceId, x⟩
    rwa [max_eq_left hx.1] at this
  refine ⟨⟨h.whole.cash, h.whole.disc, h.whole.wo, update_whole h.whole.cred
    ⟨add_nonneg (h.whole.cred _).1 hx.1, (h.whole.cred _).2.add hx.2⟩⟩, ?_, ?_, ?_, ?_⟩
  · intro id'
    rw [htally]
    by_cases hid : id' = inv.invoiceId
    · subst hid
      simp [CreditRows.use, h.cred]
    · simp [CreditRows.use, Function.update_of_ne hid, h.cred, Ne.symm hid]
  · intro id'
    rw [htally]
    by_cases hid : id' = id
    · subst hid
      rw [h.left, Option.map_eq_some_iff] at havail
      obtain ⟨remaining, hstart, rfl⟩ := havail
      simp only [CreditRows.use, Function.update_self, hstart, Option.map_some, decide_true, if_true]
      congr 1
      ring
    · simp [CreditRows.use, Function.update_of_ne hid, h.left, Ne.symm hid]
  · intro id' left hl
    by_cases hid : id' = id
    · subst hid
      simp only [CreditRows.use, Function.update_self, Option.some.injEq] at hl
      subst hl
      refine ⟨hcents.sub hx.2, fun hp => ?_⟩
      simp only [CreditRows.use] at hp
      split_ifs at hp with hover
      · simp at hp
      · linarith
    · simp only [CreditRows.use, Function.update_of_ne hid] at hl
      refine ⟨(h.leftOk id' left hl).1, fun hp => (h.leftOk id' left hl).2 ?_⟩
      simp only [CreditRows.use] at hp
      split_ifs at hp with hover
      · simp at hp
      · exact hp
  · intro r hr
    simp only [CreditRows.use] at hr
    split_ifs at hr
    · rcases List.mem_append.mp hr with hr | hr
      · exact h.rows r hr
      · rw [List.mem_singleton.mp hr]
        exact hx.2
    · exact h.rows r hr

theorem creditInputRow_uses (byId : Id → Option ComputeInvoice) {s : CreditRows} (h : s.Uses start)
    (pass : CreditPass) (row : CreditInput) : (creditInputRow byId pass s row).Uses start := by
  unfold creditInputRow
  split_ifs with hpass
  · exact h
  rcases byId row.invoiceId with _ | inv
  · exact ⟨h.whole, h.cred, h.left, fun id left hl => ⟨(h.leftOk id left hl).1, by simp⟩, h.rows⟩
  rcases havail : s.creditLeft row.sourcePaymentId with _ | avail
  · simp only []
    exact ⟨h.whole, h.cred, h.left, fun id left hl => ⟨(h.leftOk id left hl).1, by simp⟩, h.rows⟩
  · simp only []
    exact h.use havail (creditAmount_whole h.whole (h.leftOk _ _ havail).1 row.amount)

theorem creditPasses_uses (byId : Id → Option ComputeInvoice) {s : CreditRows} (h : s.Uses start) (rows : List CreditInput) :
    (creditPasses byId rows s).Uses start := by
  have hrun : ∀ (pass : CreditPass) (rows : List CreditInput) (s : CreditRows), s.Uses start →
      (rows.foldl (creditInputRow byId pass) s).Uses start := by
    intro pass rows
    induction rows with
    | nil => exact fun s h => h
    | cons row rows ih => exact fun s h => ih _ (creditInputRow_uses byId h pass row)
  exact hrun .fill rows _ (hrun .typed rows s h)

/-- Before the credits are used. -/
theorem CreditRows.uses_start {t : TypedRows} (ht : t.Ok) (credits : List ComputeCredit) :
    CreditRows.Uses (fun id => (lastOf (·.sourcePaymentId) credits id).map (·.remaining.val))
      { given := t.given, problems := t.problems
        creditLeft := fun id => (lastOf (·.sourcePaymentId) credits id).map (·.remaining.val) } where
  whole := ht.whole
  cred id := by simp [ht.cred]
  left id := by simp [Function.comp_def]
  leftOk id left hl := by
    obtain ⟨c, -, rfl⟩ := Option.map_eq_some_iff.mp hl
    exact ⟨c.remaining.property.2, fun _ => c.remaining.property.1⟩
  rows := by simp

end Credits

section Cash

/-- The cash goes out in whole cents, and the credits stay as they are. -/
structure CashOk (cred : Id → Dec) (p : Given × Dec) : Prop where
  whole : p.1.Whole
  cred : p.1.cred = cred
  rest : Cents p.2

variable {cred : Id → Dec} {p : Given × Dec}

theorem takeCash_ok (h : CashOk cred p) (inv : ComputeInvoice) : CashOk cred (takeCash p inv) := by
  have htake := max_min_whole h.rest (h.whole.left_cents inv)
  exact ⟨h.whole.setCash htake, h.cred, h.rest.sub htake.2⟩

theorem autoCash_ok (h : CashOk cred p) (inv : ComputeInvoice) : CashOk cred (autoCash p inv) := by
  unfold autoCash
  split_ifs
  · exact takeCash_ok h inv
  · exact h

theorem takeAll_ok (h : CashOk cred p) (inv : ComputeInvoice) : CashOk cred (takeAll p inv) := by
  have htake : 0 ≤ max (p.1.left inv) 0 ∧ Cents (max (p.1.left inv) 0) :=
    ⟨le_max_right _ _, (h.whole.left_cents inv).max Places.zero⟩
  exact ⟨h.whole.setCash htake, h.cred, h.rest.add htake.2⟩

theorem foldl_keeps {α β : Type*} {f : β → α → β} {P : β → Prop} (hf : ∀ b a, P b → P (f b a)) :
    ∀ (l : List α) {b : β}, P b → P (l.foldl f b)
  | [], _, h => h
  | a :: l, _, h => foldl_keeps hf l (hf _ a h)

/-- The amount, and what the invoices have after the cash. -/
theorem cashRows_ok (req : ComputeRequest) (invoices fills : List ComputeInvoice) {typedCash : Dec}
    {g : Given} (hg : g.Whole) (ht : Cents typedCash) :
    Cents (cashRows req invoices fills typedCash g).1 ∧
      (cashRows req invoices fills typedCash g).2.2.Whole ∧
      (cashRows req invoices fills typedCash g).2.2.cred = g.cred := by
  unfold cashRows
  rcases req.applications with _ | rows <;> rcases req.amount with _ | amount
  · have h := foldl_keeps (P := CashOk g.cred) (fun _ inv h => autoCash_ok h inv) invoices
      (b := (g, 0)) ⟨hg, rfl, Places.zero⟩
    exact ⟨Places.zero, h.whole, h.cred⟩
  · have h := foldl_keeps (P := CashOk g.cred) (fun _ inv h => autoCash_ok h inv) invoices
      (b := (g, amount.val)) ⟨hg, rfl, amount.property.2⟩
    exact ⟨amount.property.2, h.whole, h.cred⟩
  · have h := foldl_keeps (P := CashOk g.cred) (fun _ inv h => takeAll_ok h inv)
      (sortOpenInvoices fills) (b := (g, typedCash)) ⟨hg, rfl, ht⟩
    exact ⟨h.rest, h.whole, h.cred⟩
  · have h := foldl_keeps (P := CashOk g.cred) (fun _ inv h => takeCash_ok h inv)
      (sortOpenInvoices fills) (b := (g, max (amount.val - typedCash) 0))
      ⟨hg, rfl, (amount.property.2.sub ht).max Places.zero⟩
    exact ⟨amount.property.2, h.whole, h.cred⟩

end Cash

/-- An invoice's balance is settled or left, nothing of it below zero. -/
structure ComputedInvoice.Settled (inv : ComputedInvoice) : Prop where
  sum : inv.payment + inv.discount + inv.writeOff + inv.credit + inv.remaining =
    centBalance inv.balanceDueExact
  payment : 0 ≤ inv.payment
  discount : 0 ≤ inv.discount
  writeOff : 0 ≤ inv.writeOff
  credit : 0 ≤ inv.credit
  remaining : 0 ≤ inv.remaining

/-- The money of a payment goes to the open invoices, or stays on account; its credits give no more
than they have. -/
structure Conserves (openInvoices : List ComputeInvoice) (credits : List ComputeCredit)
    (r : ComputeResult) : Prop where
  all : (r.invoices.map fun inv => (inv.invoiceId, inv.balanceDueExact)).Perm
    ((openInvoices.filter fun i => 0 < centBalance i.balanceDueExact).map fun i =>
      (i.invoiceId, i.balanceDueExact))
  invoices : ∀ inv ∈ r.invoices, inv.Settled
  amount : r.amount = r.totals.applied + r.totals.unapplied
  applied : r.totals.applied = (r.invoices.map (·.payment)).sum
  discountsAndCredits : r.totals.discountsAndCredits =
    (r.invoices.map fun inv => inv.discount + inv.credit).sum
  sources : ∀ c ∈ credits, tally (fun a => a.sourcePaymentId = c.sourcePaymentId) (·.amount)
    r.creditApplications ≤ c.remaining.val
  credits : ∀ inv ∈ r.invoices, tally (fun a => a.invoiceId = inv.invoiceId) (·.amount)
    r.creditApplications = inv.credit

section Compute

variable {openInvoices : List ComputeInvoice} {req : ComputeRequest} {credits : List ComputeCredit}

theorem lastOf_of_nodup {α : Type*} {key : α → Id} {rows : List α} (h : (rows.map key).Nodup)
    {a : α} (ha : a ∈ rows) : lastOf key rows (key a) = some a := by
  have hfilter : rows.filter (fun r => key r = key a) = [a] := by
    induction rows with
    | nil => cases ha
    | cons b rows ih =>
      rw [List.map_cons, List.nodup_cons] at h
      rw [List.filter_cons]
      rcases List.mem_cons.mp ha with rfl | ha
      · have hnil : rows.filter (fun r => key r = key a) = [] := by
          rw [List.filter_eq_nil_iff]
          intro r hr hk
          exact h.1 (of_decide_eq_true hk ▸ List.mem_map_of_mem hr)
        simp [hnil]
      · have hne : key b ≠ key a := fun hk => h.1 (hk ▸ List.mem_map_of_mem ha)
        simp [hne, ih h.2 ha]
  rw [lastOf, hfilter]
  rfl

variable {invoices : List ComputeInvoice} {c : CreditRows} {amount : Dec} {source : AmountSource}
  {g : Given}

/-- A sum of whole cents over the invoices. -/
theorem sum_cents (invoices : List ComputeInvoice) {f : Id → Dec} (h : ∀ id, 0 ≤ f id ∧ Cents (f id)) :
    Cents (invoices.map fun inv => f inv.invoiceId).sum :=
  Places.sum fun x hx => by
    obtain ⟨inv, -, rfl⟩ := List.mem_map.mp hx
    exact (h _).2

theorem problems_nil (h : (paymentResult req invoices c amount source g).problems = []) :
    c.problems = [] ∧ (∀ inv ∈ invoices, 0 ≤ g.remaining inv) ∧
      (invoices.map fun inv => g.cash inv.invoiceId).sum ≤ amount := by
  simp only [paymentResult, List.append_eq_nil_iff, List.map_eq_nil_iff, List.filter_eq_nil_iff,
    decide_eq_true_eq, not_lt] at h
  obtain ⟨⟨⟨hc, hover⟩, hexceed⟩, -⟩ := h
  refine ⟨hc, hover, ?_⟩
  by_contra hlt
  rw [if_pos (not_le.mp hlt)] at hexceed
  cases hexceed

theorem computedInvoice_settled (hg : g.Whole) {inv : ComputeInvoice} (h : 0 ≤ g.remaining inv) :
    (computedInvoice g req inv).Settled := by
  have hcash := round2_of_cents (hg.cash inv.invoiceId).2
  have hdisc := round2_of_cents (hg.disc inv.invoiceId).2
  have hwo := round2_of_cents (hg.wo inv.invoiceId).2
  have hcred := round2_of_cents (hg.cred inv.invoiceId).2
  have hrem := round2_of_cents (hg.remaining_cents inv)
  refine ⟨?_, ?_, ?_, ?_, ?_, ?_⟩ <;> simp only [computedInvoice, hcash, hdisc, hwo, hcred, hrem]
  · rw [Given.remaining, Given.settled]
    ring
  · exact (hg.cash _).1
  · exact (hg.disc _).1
  · exact (hg.wo _).1
  · exact (hg.cred _).1
  · exact h

/-- The rows of the result carry the amounts of the rows of the passes. -/
theorem tally_creditApplications {p : CreditUse → Bool} {q : ComputedCredit → Bool}
    (hpq : ∀ r b, q ⟨r.sourcePaymentId, r.invoiceId, round2 r.amount, b⟩ = p r)
    (h : ∀ r ∈ c.creditRows, Cents r.amount) :
    tally q (·.amount) (paymentResult req invoices c amount source g).creditApplications =
      tally p (·.amount) c.creditRows := by
  simp only [paymentResult]
  rw [tally_map]
  exact tally_congr (fun r _ => hpq r _) (fun r hr _ => round2_of_cents (h r hr))

theorem paymentResult_conserves
    (hperm : invoices.Perm (openInvoices.filter fun i => 0 < centBalance i.balanceDueExact))
    (hcredits : (credits.map (·.sourcePaymentId)).Nodup) (hamount : Cents amount) (hg : g.Whole)
    (hcred : g.cred = c.given.cred)
    (hc : c.Uses fun id => (lastOf (·.sourcePaymentId) credits id).map (·.remaining.val))
    (h : (paymentResult req invoices c amount source g).problems = []) :
    Conserves openInvoices credits (paymentResult req invoices c amount source g) := by
  obtain ⟨hnone, hremaining, hexceed⟩ := problems_nil h
  have hcash := sum_cents invoices hg.cash
  constructor
  case all =>
    simp only [paymentResult, List.map_map]
    exact hperm.map fun i => (i.invoiceId, i.balanceDueExact)
  case invoices =>
    intro inv hinv
    obtain ⟨i, hi, rfl⟩ := List.mem_map.mp hinv
    exact computedInvoice_settled hg (hremaining i hi)
  case amount =>
    simp only [paymentResult]
    rw [max_eq_left (by linarith), round2_of_cents hamount, round2_of_cents hcash,
      round2_of_cents (hamount.sub hcash)]
    ring
  case applied =>
    simp only [paymentResult, List.map_map]
    rw [round2_of_cents hcash]
    exact congrArg List.sum (List.map_congr_left fun i _ =>
      (round2_of_cents (hg.cash i.invoiceId).2).symm)
  case discountsAndCredits =>
    simp only [paymentResult, List.map_map]
    rw [round2_of_cents ((sum_cents invoices hg.disc).add (sum_cents invoices hg.cred)), ← List.sum_map_add]
    refine congrArg List.sum (List.map_congr_left fun i _ => ?_)
    simp only [Function.comp_apply, computedInvoice, round2_of_cents (hg.disc i.invoiceId).2,
      round2_of_cents (hg.cred i.invoiceId).2]
  case sources =>
    intro credit hcredit
    rw [tally_creditApplications (p := fun r => r.sourcePaymentId = credit.sourcePaymentId)
      (fun _ _ => rfl) hc.rows]
    have hleft := hc.left credit.sourcePaymentId
    rw [lastOf_of_nodup hcredits hcredit] at hleft
    have := (hc.leftOk _ _ hleft).2 hnone
    linarith
  case credits =>
    intro inv hinv
    obtain ⟨i, -, rfl⟩ := List.mem_map.mp hinv
    rw [tally_creditApplications (p := fun r => r.invoiceId = i.invoiceId) (fun _ _ => rfl) hc.rows]
    simp only [computedInvoice]
    rw [round2_of_cents (hg.cred _).2, hcred, hc.cred]

theorem computePayment_conserves (openInvoices : List ComputeInvoice) (req : ComputeRequest)
    (credits : List ComputeCredit) (hcredits : (credits.map (·.sourcePaymentId)).Nodup)
    (h : (computePayment openInvoices req credits).problems = []) :
    Conserves openInvoices credits (computePayment openInvoices req credits) := by
  have ht := typedRows_ok (lastOf (·.invoiceId) (sortOpenInvoices
    (openInvoices.filter fun i => 0 < centBalance i.balanceDueExact))) (req.applications.getD [])
  have hc := creditPasses_uses (lastOf (·.invoiceId) (sortOpenInvoices
    (openInvoices.filter fun i => 0 < centBalance i.balanceDueExact)))
    (CreditRows.uses_start ht credits) req.creditApplications
  obtain ⟨hamount, hg, hcred⟩ := cashRows_ok req _ _ hc.whole ht.typedCash
  exact paymentResult_conserves (List.perm_insertionSort _ _) hcredits hamount hg hcred hc h

/-- An open invoice of March, due in April. -/
def marchInvoice (id date : String) (total : Dec) : ComputeInvoice :=
  ⟨id, id, date, some "2026-04-30", total, total, none, none, false⟩

def money (n : ℕ) : MoneyInput := ⟨n, by positivity, Places.intCast n⟩

/-- 100 for the later invoice, the rest of 150 for the earlier, after a credit of 20 for it. -/
def twoInvoices : ComputeRequest where
  date := some "2026-04-01"
  amount := some (money 150)
  applications := some [⟨"b", some (money 100), none, none⟩, ⟨"a", none, none, some (money 5)⟩]
  creditApplications := [⟨"memo", "a", none⟩]
  writeOffThreshold := none

theorem twoInvoices_conserves :
    Conserves [marchInvoice "b" "2026-03-09" 100, marchInvoice "a" "2026-03-02" 60]
      [⟨"memo", money 20⟩]
      (computePayment [marchInvoice "b" "2026-03-09" 100, marchInvoice "a" "2026-03-02" 60]
        twoInvoices [⟨"memo", money 20⟩]) :=
  computePayment_conserves _ _ _ (by decide) (by decide +kernel)

end Compute

end MyBooks
