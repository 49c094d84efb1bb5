import MyBooks.AutoAllocation

/-!
# A preview, sent back

The figures of a payment without problems, typed in as they were shown, come out as they were
(`preview_fixed`): the applications give each invoice what it had, and the credits, used for the
amounts of their rows, are never used for more than they have.
-/

namespace MyBooks

/-- A shown amount, typed. -/
def typedInput (x : Dec) : MoneyInput :=
  ⟨max (round2 x) 0, le_max_right _ _, (Cents.round2 x).max Places.zero⟩

theorem typedInput_val {x : Dec} (h : 0 ≤ x ∧ Cents x) : (typedInput x).val = x := by
  show max (round2 x) 0 = x
  rw [round2_of_cents h.2, max_eq_left h.1]

def ComputedApplication.typed (a : ComputedApplication) : ApplicationInput :=
  ⟨a.invoiceId, some (typedInput a.amount), some (typedInput a.discountAmount),
    some (typedInput a.writeOffAmount)⟩

def ComputedCredit.typed (a : ComputedCredit) : CreditInput :=
  ⟨a.sourcePaymentId, a.invoiceId, some (typedInput a.amount)⟩

/-- The request that sends a preview back: every amount is typed. -/
def ComputeRequest.retyped (req : ComputeRequest) (r : ComputeResult) : ComputeRequest where
  date := req.date
  amount := some (typedInput r.amount)
  applications := some (r.applications.map (·.typed))
  creditApplications := r.creditApplications.map (·.typed)
  writeOffThreshold := req.writeOffThreshold

theorem lastOf_key {α : Type*} {key : α → Id} {rows : List α} {id : Id} {a : α}
    (h : lastOf key rows id = some a) : key a = id :=
  of_decide_eq_true (List.mem_filter.mp (List.mem_of_getLast? h)).2

/-! ## The applications -/

section Applications

variable {byId : Id → Option ComputeInvoice} {g : Given}

/-- The rows gave the invoices what `g` has, and moved nothing else. -/
structure TypedRows.Gives (g : Given) (invoices : List ComputeInvoice) (s t : TypedRows) : Prop where
  given : ∀ inv ∈ invoices, t.given.cash inv.invoiceId = g.cash inv.invoiceId ∧
    t.given.disc inv.invoiceId = g.disc inv.invoiceId ∧ t.given.wo inv.invoiceId = g.wo inv.invoiceId
  frame : ∀ id ∉ invoices.map (·.invoiceId), t.given.cash id = s.given.cash id ∧
    t.given.disc id = s.given.disc id ∧ t.given.wo id = s.given.wo id
  cred : t.given.cred = s.given.cred
  fills : t.fills = s.fills
  typedCash : t.typedCash = s.typedCash + (invoices.map fun inv => g.cash inv.invoiceId).sum
  problems : t.problems = s.problems

/-- The state after an invoice's row came back. -/
def TypedRows.give (s : TypedRows) (g : Given) (id : Id) : TypedRows where
  given :=
    { cash := Function.update s.given.cash id (g.cash id)
      disc := Function.update s.given.disc id (g.disc id)
      wo := Function.update s.given.wo id (g.wo id)
      cred := s.given.cred }
  fills := s.fills
  typedCash := s.typedCash + g.cash id
  seen := id :: s.seen
  problems := s.problems

theorem typedRow_give (hg : g.Whole) {s : TypedRows} {inv : ComputeInvoice}
    (hbyId : byId inv.invoiceId = some inv) (hseen : inv.invoiceId ∉ s.seen) {a : ComputedApplication}
    (ha : computedApplication g inv = some a) :
    typedRow byId s a.typed = s.give g inv.invoiceId := by
  unfold computedApplication at ha
  split_ifs at ha
  obtain rfl := Option.some.inj ha
  simp only [ComputedApplication.typed, typedRow, hseen, if_false, hbyId, Option.map_some,
    Option.getD_some, round2_of_cents (hg.cash _).2, round2_of_cents (hg.disc _).2,
    round2_of_cents (hg.wo _).2, typedInput_val (hg.cash _), typedInput_val (hg.disc _),
    typedInput_val (hg.wo _)]
  rfl

/-- An invoice without a row has no cash, discount or write-off. -/
theorem computedApplication_none (hg : g.Whole) {inv : ComputeInvoice}
    (h : computedApplication g inv = none) :
    g.cash inv.invoiceId = 0 ∧ g.disc inv.invoiceId = 0 ∧ g.wo inv.invoiceId = 0 := by
  unfold computedApplication at h
  split_ifs at h with hpos
  have hcash := (hg.cash inv.invoiceId).1
  have hdisc := (hg.disc inv.invoiceId).1
  have hwo := (hg.wo inv.invoiceId).1
  rw [not_lt] at hpos
  exact ⟨by linarith, by linarith, by linarith⟩

theorem typedRows_gives (hg : g.Whole) : ∀ {invoices : List ComputeInvoice} {s : TypedRows},
    (invoices.map (·.invoiceId)).Nodup →
    (∀ inv ∈ invoices, byId inv.invoiceId = some inv ∧ inv.invoiceId ∉ s.seen ∧
      s.given.cash inv.invoiceId = 0 ∧ s.given.disc inv.invoiceId = 0 ∧ s.given.wo inv.invoiceId = 0) →
    TypedRows.Gives g invoices s
      (((invoices.filterMap (computedApplication g)).map (·.typed)).foldl (typedRow byId) s)
  | [], s, _, _ => ⟨by simp, fun _ _ => ⟨rfl, rfl, rfl⟩, rfl, rfl, by simp, rfl⟩
  | inv :: invoices, s, hids, h => by
    obtain ⟨⟨hbyId, hseen, hcash, hdisc, hwo⟩, hothers⟩ := List.forall_mem_cons.mp h
    obtain ⟨hnew, hids⟩ := List.nodup_cons.mp hids
    have hne : ∀ i ∈ invoices, i.invoiceId ≠ inv.invoiceId := fun i hi he =>
      hnew (List.mem_map.mpr ⟨i, hi, he⟩)
    rcases ha : computedApplication g inv with _ | a
    · obtain ⟨hcash', hdisc', hwo'⟩ := computedApplication_none hg ha
      rw [List.filterMap_cons_none ha]
      have ih := typedRows_gives hg hids hothers
      obtain ⟨hc, hd, hw⟩ := ih.frame inv.invoiceId hnew
      refine ⟨List.forall_mem_cons.mpr ⟨⟨?_, ?_, ?_⟩, ih.given⟩, fun id hid => ih.frame id ?_, ih.cred,
        ih.fills, ?_, ih.problems⟩
      · rw [hc, hcash, hcash']
      · rw [hd, hdisc, hdisc']
      · rw [hw, hwo, hwo']
      · exact fun hmem => hid (List.mem_cons_of_mem _ hmem)
      · rw [ih.typedCash, List.map_cons, List.sum_cons, hcash', zero_add]
    · rw [List.filterMap_cons_some ha, List.map_cons, List.foldl_cons,
        typedRow_give hg hbyId hseen ha]
      have ih := typedRows_gives hg (s := s.give g inv.invoiceId) hids fun i hi => by
        obtain ⟨hb, hs, hz⟩ := hothers i hi
        simp only [TypedRows.give, List.mem_cons, not_or, Function.update_of_ne (hne i hi)]
        exact ⟨hb, ⟨hne i hi, hs⟩, hz⟩
      obtain ⟨hc, hd, hw⟩ := ih.frame inv.invoiceId hnew
      refine ⟨List.forall_mem_cons.mpr ⟨⟨?_, ?_, ?_⟩, ih.given⟩, fun id hid => ?_, ih.cred,
        ih.fills, ?_, ih.problems⟩
      · exact hc.trans (Function.update_self _ _ _)
      · exact hd.trans (Function.update_self _ _ _)
      · exact hw.trans (Function.update_self _ _ _)
      · rw [List.map_cons, List.mem_cons, not_or] at hid
        obtain ⟨hc, hd, hw⟩ := ih.frame id hid.2
        exact ⟨hc.trans (Function.update_of_ne hid.1 _ _), hd.trans (Function.update_of_ne hid.1 _ _),
          hw.trans (Function.update_of_ne hid.1 _ _)⟩
      · rw [ih.typedCash, List.map_cons, List.sum_cons, ← add_assoc]
        rfl

end Applications

/-! ## The credits -/

section Credits

variable {byId : Id → Option ComputeInvoice} {start : Id → Option Dec}

/-- Each row is of an invoice and of a credit the passes know, for something. -/
def CreditRows.Known (byId : Id → Option ComputeInvoice) (s : CreditRows) : Prop :=
  ∀ r ∈ s.creditRows, 0 < r.amount ∧ (s.creditLeft r.sourcePaymentId).isSome ∧
    ∃ inv, byId r.invoiceId = some inv ∧ inv.invoiceId = r.invoiceId

theorem CreditRows.Known.use {s : CreditRows} (h : s.Known byId) {source : Id} {inv : ComputeInvoice}
    (hinv : byId inv.invoiceId = some inv) (avail x : Dec) : (s.use source inv avail x).Known byId := by
  have hkept : ∀ id, (s.creditLeft id).isSome →
      ((s.use source inv avail x).creditLeft id).isSome := fun id hid => by
    simp only [CreditRows.use]
    by_cases hs : id = source
    · rw [hs, Function.update_self]
      rfl
    · rwa [Function.update_of_ne hs]
  have hold : ∀ r ∈ s.creditRows, 0 < r.amount ∧
      ((s.use source inv avail x).creditLeft r.sourcePaymentId).isSome ∧
      ∃ inv, byId r.invoiceId = some inv ∧ inv.invoiceId = r.invoiceId := fun r hr =>
    ⟨(h r hr).1, hkept _ (h r hr).2.1, (h r hr).2.2⟩
  intro r hr
  have hrows : (s.use source inv avail x).creditRows =
      if 0 < x then s.creditRows ++ [⟨source, inv.invoiceId, x⟩] else s.creditRows := rfl
  rw [hrows] at hr
  split_ifs at hr with hx
  · rcases List.mem_append.mp hr with hr | hr
    · exact hold r hr
    · rw [List.mem_singleton.mp hr]
      exact ⟨hx, by simp [CreditRows.use], inv, hinv, rfl⟩
  · exact hold r hr

theorem creditPasses_known (hbyId : ∀ id inv, byId id = some inv → inv.invoiceId = id)
    (rows : List CreditInput) {s : CreditRows} (h : s.Known byId) :
    (creditPasses byId rows s).Known byId := by
  have hstep : ∀ pass (s : CreditRows) (row : CreditInput), s.Known byId →
      (creditInputRow byId pass s row).Known byId := by
    intro pass s row h
    unfold creditInputRow
    split_ifs
    · exact h
    rcases hinv : byId row.invoiceId with _ | inv
    · exact h
    rcases s.creditLeft row.sourcePaymentId with _ | avail
    · exact h
    · exact h.use (by rw [hbyId _ _ hinv, hinv]) _ _
  exact foldl_keeps (hstep .fill) rows (foldl_keeps (hstep .typed) rows h)

def CreditUse.typed (r : CreditUse) : CreditInput :=
  ⟨r.sourcePaymentId, r.invoiceId, some (typedInput r.amount)⟩

/-- The state after a row its credit covers. -/
def CreditRows.spend (s : CreditRows) (r : CreditUse) (avail : Dec) : CreditRows where
  given := { s.given with
    cred := Function.update s.given.cred r.invoiceId (s.given.cred r.invoiceId + r.amount) }
  creditLeft := Function.update s.creditLeft r.sourcePaymentId (some (avail - r.amount))
  creditRows := s.creditRows ++ [r]
  problems := s.problems

theorem creditInputRow_typed {s : CreditRows} {r : CreditUse} {inv : ComputeInvoice} {avail : Dec}
    (hr : 0 < r.amount ∧ Cents r.amount) (hbyId : byId r.invoiceId = some inv)
    (hinv : inv.invoiceId = r.invoiceId) (havail : s.creditLeft r.sourcePaymentId = some avail)
    (hle : r.amount ≤ avail) :
    creditInputRow byId .typed s r.typed = s.spend r avail := by
  have hval : (typedInput r.amount).val = r.amount := typedInput_val ⟨hr.1.le, hr.2⟩
  simp only [creditInputRow, CreditUse.typed, Option.isNone_some, Bool.false_eq_true, reduceCtorEq,
    ne_eq, not_true_eq_false, if_false, hbyId, havail, creditAmount, hval, CreditRows.use, hinv,
    if_pos hr.1, if_neg (not_lt.mpr hle), CreditRows.spend]

/-- Where the credits cover their rows, typed they give them again. -/
theorem typedCredits_again : ∀ {rows : List CreditUse} {s : CreditRows},
    (∀ r ∈ rows, 0 < r.amount ∧ Cents r.amount ∧
      ∃ inv, byId r.invoiceId = some inv ∧ inv.invoiceId = r.invoiceId) →
    (∀ r ∈ rows, ∃ avail, s.creditLeft r.sourcePaymentId = some avail ∧
      tally (fun r' => r'.sourcePaymentId = r.sourcePaymentId) (·.amount) rows ≤ avail) →
    ((rows.map (·.typed)).foldl (creditInputRow byId .typed) s).creditRows = s.creditRows ++ rows ∧
      ((rows.map (·.typed)).foldl (creditInputRow byId .typed) s).problems = s.problems
  | [], s, _, _ => ⟨(List.append_nil _).symm, rfl⟩
  | r :: rows, s, hrows, havail => by
    obtain ⟨⟨hpos, hcents, inv, hbyId, hinv⟩, hothers⟩ := List.forall_mem_cons.mp hrows
    obtain ⟨⟨avail, hleft, hle⟩, havails⟩ := List.forall_mem_cons.mp havail
    rw [tally_cons, if_pos (decide_eq_true rfl)] at hle
    have hrest : 0 ≤ tally (fun r' => r'.sourcePaymentId = r.sourcePaymentId) (·.amount) rows :=
      tally_nonneg fun r' hr' _ => (hothers r' hr').1.le
    rw [List.map_cons, List.foldl_cons,
      creditInputRow_typed ⟨hpos, hcents⟩ hbyId hinv hleft (by linarith)]
    obtain ⟨hr, hp⟩ := typedCredits_again (s := s.spend r avail) hothers fun r' hr' => by
      obtain ⟨avail', hleft', hle'⟩ := havails r' hr'
      rw [tally_cons] at hle'
      by_cases hs : r'.sourcePaymentId = r.sourcePaymentId
      · refine ⟨avail - r.amount, by rw [hs]; exact Function.update_self _ _ _, ?_⟩
        rw [hs]
        linarith
      · rw [if_neg (by simpa using Ne.symm hs), zero_add] at hle'
        exact ⟨avail', (Function.update_of_ne hs _ _).trans hleft', hle'⟩
    exact ⟨hr.trans (List.append_assoc _ [r] _), hp⟩

theorem fill_typed : ∀ (rows : List CreditUse) (s : CreditRows),
    (rows.map (·.typed)).foldl (creditInputRow byId .fill) s = s
  | [], _ => rfl
  | _ :: rows, s => fill_typed rows s

/-- The credits' rows, typed, are the rows again. -/
theorem creditPasses_again {c s : CreditRows} (hc : c.Uses start) (hknown : c.Known byId)
    (hnone : c.problems = []) (hleft : s.creditLeft = start) :
    (creditPasses byId (c.creditRows.map (·.typed)) s).creditRows = s.creditRows ++ c.creditRows ∧
      (creditPasses byId (c.creditRows.map (·.typed)) s).problems = s.problems := by
  unfold creditPasses
  rw [fill_typed]
  refine typedCredits_again (fun r hr => ⟨(hknown r hr).1, hc.rows r hr, (hknown r hr).2.2⟩) ?_
  intro r hr
  obtain ⟨left, hl⟩ := Option.isSome_iff_exists.mp (hknown r hr).2.1
  have hover := (hc.leftOk _ _ hl).2 hnone
  rw [hc.left, Option.map_eq_some_iff] at hl
  obtain ⟨remaining, hstart, rfl⟩ := hl
  exact ⟨remaining, hleft ▸ hstart, sub_nonneg.mp hover⟩

end Credits

/-! ## The result -/

section Result

/-- Two states that give the invoices the same. -/
structure Given.AgreesOn (invoices : List ComputeInvoice) (g g' : Given) : Prop where
  cash : ∀ inv ∈ invoices, g'.cash inv.invoiceId = g.cash inv.invoiceId
  disc : ∀ inv ∈ invoices, g'.disc inv.invoiceId = g.disc inv.invoiceId
  wo : ∀ inv ∈ invoices, g'.wo inv.invoiceId = g.wo inv.invoiceId
  cred : ∀ inv ∈ invoices, g'.cred inv.invoiceId = g.cred inv.invoiceId

variable {invoices : List ComputeInvoice} {req req' : ComputeRequest} {c c' : CreditRows}
  {amount : Dec} {source source' : AmountSource} {g g' : Given}

theorem paymentResult_congr (hdate : req'.date = req.date)
    (hthreshold : req'.writeOffThreshold = req.writeOffThreshold) (hrows : c'.creditRows = c.creditRows)
    (hproblems : c'.problems = c.problems) (h : Given.AgreesOn invoices g g') :
    paymentResult req' invoices c' amount source' g' =
      { paymentResult req invoices c amount source g with amountSource := source' } := by
  have hsettled : ∀ inv ∈ invoices, g'.settled inv = g.settled inv := fun inv hinv => by
    rw [Given.settled, Given.settled, h.cash inv hinv, h.disc inv hinv, h.wo inv hinv, h.cred inv hinv]
  have hremaining : ∀ inv ∈ invoices, g'.remaining inv = g.remaining inv := fun inv hinv => by
    rw [Given.remaining, Given.remaining, hsettled inv hinv]
  have hinvoices : invoices.map (computedInvoice g' req') = invoices.map (computedInvoice g req) :=
    List.map_congr_left fun inv hinv => by
      simp only [computedInvoice, hdate, h.cash inv hinv, h.disc inv hinv, h.wo inv hinv,
        h.cred inv hinv, hremaining inv hinv]
  have hshortfalls : invoices.filterMap (shortfall g' req') = invoices.filterMap (shortfall g req) :=
    List.filterMap_congr fun inv hinv => by
      simp only [shortfall, hthreshold, hsettled inv hinv, hremaining inv hinv]
  have happlications : invoices.filterMap (computedApplication g') =
      invoices.filterMap (computedApplication g) :=
    List.filterMap_congr fun inv hinv => by
      simp only [computedApplication, h.cash inv hinv, h.disc inv hinv, h.wo inv hinv]
  have hover : (invoices.filter fun inv => g'.remaining inv < 0) =
      invoices.filter fun inv => g.remaining inv < 0 :=
    List.filter_congr fun inv hinv => by rw [hremaining inv hinv]
  simp only [paymentResult, hrows, hproblems, hinvoices, hshortfalls, happlications, hover,
    List.map_congr_left h.cash, List.map_congr_left h.disc, List.map_congr_left h.wo,
    List.map_congr_left h.cred]

/-- What was shown is what is typed. -/
structure ComputeRequest.Shows (r : ComputeResult) (req : ComputeRequest) : Prop where
  amount : req.amount.map (·.val) = some r.amount
  applications : req.applications.map (·.map fun a => (a.invoiceId, a.amount.map (·.val),
      a.discountAmount.map (·.val), a.writeOffAmount.map (·.val))) =
    some (r.applications.map fun a =>
      (a.invoiceId, some a.amount, some a.discountAmount, some a.writeOffAmount))
  creditApplications : (req.creditApplications.map fun a =>
      (a.sourcePaymentId, a.invoiceId, a.amount.map (·.val))) =
    r.creditApplications.map fun a => (a.sourcePaymentId, a.invoiceId, some a.amount)

variable {start : Id → Option Dec}

/-- The payment's amount is not below what it gives out. -/
theorem amount_nonneg (hg : g.Whole)
    (h : (paymentResult req invoices c amount source g).problems = []) : 0 ≤ amount :=
  (List.sum_nonneg fun x hx => by
    obtain ⟨inv, -, rfl⟩ := List.mem_map.mp hx
    exact (hg.cash _).1).trans (problems_nil h).2.2

theorem paymentResult_credits (hc : c.Uses start) :
    (paymentResult req invoices c amount source g).creditApplications.map (·.typed) =
      c.creditRows.map (·.typed) := by
  simp only [paymentResult, List.map_map]
  exact List.map_congr_left fun r hr => by
    simp only [Function.comp_apply, ComputedCredit.typed, CreditUse.typed, round2_of_cents (hc.rows r hr)]

theorem paymentResult_shown (hg : g.Whole) (hamount : Cents amount) (hc : c.Uses start)
    (hknown : c.Known (lastOf (·.invoiceId) invoices))
    (h : (paymentResult req invoices c amount source g).problems = []) :
    (req.retyped (paymentResult req invoices c amount source g)).Shows
      (paymentResult req invoices c amount source g) := by
  constructor
  case amount =>
    have : (paymentResult req invoices c amount source g).amount = amount := round2_of_cents hamount
    simp only [ComputeRequest.retyped, Option.map_some, this,
      typedInput_val ⟨amount_nonneg hg h, hamount⟩]
  case applications =>
    simp only [ComputeRequest.retyped, Option.map_some, List.map_map, Option.some.injEq]
    refine List.map_congr_left fun a ha => ?_
    obtain ⟨inv, -, happ⟩ := List.mem_filterMap.mp ha
    unfold computedApplication at happ
    split_ifs at happ
    obtain rfl := Option.some.inj happ
    simp only [Function.comp_apply, ComputedApplication.typed, Option.map_some,
      round2_of_cents (hg.cash _).2, round2_of_cents (hg.disc _).2, round2_of_cents (hg.wo _).2,
      typedInput_val (hg.cash _), typedInput_val (hg.disc _), typedInput_val (hg.wo _)]
  case creditApplications =>
    simp only [ComputeRequest.retyped, List.map_map]
    refine List.map_congr_left fun a ha => ?_
    obtain ⟨r, hr, rfl⟩ := List.mem_map.mp ha
    simp only [Function.comp_apply, ComputedCredit.typed, Option.map_some,
      round2_of_cents (hc.rows r hr), typedInput_val ⟨(hknown r hr).1.le, hc.rows r hr⟩]

/-- The passes over what was shown give the invoices what they had. -/
theorem retyped_again (hids : (invoices.map (·.invoiceId)).Nodup) (hg : g.Whole)
    (hcred : g.cred = c.given.cred) (hc : c.Uses start)
    (hknown : c.Known (lastOf (·.invoiceId) invoices))
    (h : (paymentResult req invoices c amount source g).problems = []) {t : TypedRows}
    (ht : t = typedRows (lastOf (·.invoiceId) invoices)
      ((paymentResult req invoices c amount source g).applications.map (·.typed)))
    (hc' : c' = creditPasses (lastOf (·.invoiceId) invoices)
      ((paymentResult req invoices c amount source g).creditApplications.map (·.typed))
      { given := t.given, creditLeft := start, problems := t.problems })
    (hstart : CreditRows.Uses start { given := t.given, creditLeft := start, problems := t.problems }) :
    t.fills = [] ∧ paymentResult (req.retyped (paymentResult req invoices c amount source g)) invoices
        c' amount .typed c'.given =
      { paymentResult req invoices c amount source g with amountSource := .typed } := by
  obtain ⟨hnone, -, -⟩ := problems_nil h
  have hgives : TypedRows.Gives g invoices {} t := by
    rw [ht]
    exact typedRows_gives hg hids fun inv hinv =>
      ⟨lastOf_of_nodup hids hinv, by simp, rfl, rfl, rfl⟩
  rw [paymentResult_credits hc] at hc'
  obtain ⟨hrows, hproblems⟩ := creditPasses_again (s :=
    { given := t.given, creditLeft := start, problems := t.problems }) hc hknown hnone rfl
  have huses := creditPasses_uses (lastOf (·.invoiceId) invoices) hstart (c.creditRows.map (·.typed))
  have honly := creditPasses_creditsOnly (lastOf (·.invoiceId) invoices)
    (c.creditRows.map (·.typed)) { given := t.given, creditLeft := start, problems := t.problems }
  rw [← hc'] at hrows hproblems huses honly
  refine ⟨hgives.fills, paymentResult_congr rfl rfl hrows (hproblems.trans ?_) ⟨?_, ?_, ?_, ?_⟩⟩
  · rw [hnone]
    exact hgives.problems
  · exact fun inv hinv => (congrFun honly.cash _).trans (hgives.given inv hinv).1
  · exact fun inv hinv => (congrFun honly.disc _).trans (hgives.given inv hinv).2.1
  · exact fun inv hinv => (congrFun honly.wo _).trans (hgives.given inv hinv).2.2
  · intro inv _
    rw [huses.cred, hrows, hcred, hc.cred]
    rfl

/-- With every amount typed no cash is left to give out. -/
theorem cashRows_retyped {r : ComputeResult} {fills : List ComputeInvoice} (hfills : fills = [])
    (typedCash : Dec) (g : Given) : cashRows (req.retyped r) invoices fills typedCash g =
      ((typedInput r.amount).val, .typed, g) := by
  subst hfills
  rfl

/-- The passes of a payment, by name. -/
theorem computePayment_eq {openInvoices : List ComputeInvoice} {credits : List ComputeCredit}
    {t : TypedRows} (hinvoices : invoices = sortOpenInvoices (openInvoices.filter fun i =>
      0 < centBalance i.balanceDueExact))
    (ht : t = typedRows (lastOf (·.invoiceId) invoices) (req.applications.getD []))
    (hc : c = creditPasses (lastOf (·.invoiceId) invoices) req.creditApplications
      { given := t.given, problems := t.problems
        creditLeft := fun id => (lastOf (·.sourcePaymentId) credits id).map (·.remaining.val) })
    (hcash : cashRows req invoices t.fills t.typedCash c.given = (amount, source, g)) :
    computePayment openInvoices req credits = paymentResult req invoices c amount source g := by
  subst hinvoices ht hc
  simp only [computePayment, hcash]

/-- A payment without problems, sent back as it was shown, comes out as it was shown. -/
theorem preview_fixed (openInvoices : List ComputeInvoice) (req : ComputeRequest)
    (credits : List ComputeCredit) (hids : (openInvoices.map (·.invoiceId)).Nodup)
    (h : (computePayment openInvoices req credits).problems = []) :
    (req.retyped (computePayment openInvoices req credits)).Shows
        (computePayment openInvoices req credits) ∧
      computePayment openInvoices (req.retyped (computePayment openInvoices req credits)) credits =
        { computePayment openInvoices req credits with amountSource := .typed } := by
  have hsorted : ((sortOpenInvoices (openInvoices.filter fun i =>
      0 < centBalance i.balanceDueExact)).map (·.invoiceId)).Nodup :=
    ((sortOpenInvoices_perm _).map _).nodup_iff.mpr (hids.sublist (List.filter_sublist.map _))
  obtain ⟨invoices, hinvoices⟩ : ∃ invoices, invoices = sortOpenInvoices (openInvoices.filter fun i =>
    0 < centBalance i.balanceDueExact) := ⟨_, rfl⟩
  rw [← hinvoices] at hsorted
  obtain ⟨t, ht⟩ : ∃ t, t = typedRows (lastOf (·.invoiceId) invoices) (req.applications.getD []) :=
    ⟨_, rfl⟩
  have htok : t.Ok := ht ▸ typedRows_ok _ _
  obtain ⟨c, hc⟩ : ∃ c, c = creditPasses (lastOf (·.invoiceId) invoices) req.creditApplications
    { given := t.given, problems := t.problems
      creditLeft := fun id => (lastOf (·.sourcePaymentId) credits id).map (·.remaining.val) } :=
    ⟨_, rfl⟩
  have huses := hc ▸ creditPasses_uses (lastOf (·.invoiceId) invoices)
    (CreditRows.uses_start htok credits) req.creditApplications
  have hknown : c.Known (lastOf (·.invoiceId) invoices) := by
    rw [hc]
    refine creditPasses_known (fun _ _ => lastOf_key) _ fun r hr => ?_
    cases hr
  obtain ⟨hamount, hg, hcred⟩ := cashRows_ok req invoices t.fills huses.whole htok.typedCash
  rcases hcash : cashRows req invoices t.fills t.typedCash c.given with ⟨amount, source, g⟩
  rw [hcash] at hamount hg hcred
  rw [computePayment_eq hinvoices ht hc hcash] at h ⊢
  have hshows := paymentResult_shown hg hamount huses hknown h
  refine ⟨hshows, ?_⟩
  -- the passes over what was sent back
  obtain ⟨t', ht'⟩ : ∃ t', t' = typedRows (lastOf (·.invoiceId) invoices)
    ((paymentResult req invoices c amount source g).applications.map (·.typed)) := ⟨_, rfl⟩
  have htok' : t'.Ok := ht' ▸ typedRows_ok _ _
  obtain ⟨c', hc'⟩ : ∃ c', c' = creditPasses (lastOf (·.invoiceId) invoices)
    ((paymentResult req invoices c amount source g).creditApplications.map (·.typed))
    { given := t'.given, problems := t'.problems
      creditLeft := fun id => (lastOf (·.sourcePaymentId) credits id).map (·.remaining.val) } :=
    ⟨_, rfl⟩
  obtain ⟨hfills, hagain⟩ := retyped_again hsorted hg hcred huses hknown h ht' hc'
    (CreditRows.uses_start htok' credits)
  have hval : (typedInput (paymentResult req invoices c amount source g).amount).val = amount := by
    have := hshows.amount
    simp only [ComputeRequest.retyped, Option.map_some, Option.some.injEq] at this
    exact this.trans (round2_of_cents hamount)
  have hcash' : cashRows (req.retyped (paymentResult req invoices c amount source g)) invoices t'.fills
      t'.typedCash c'.given = (amount, .typed, c'.given) := by
    rw [cashRows_retyped hfills, hval]
  rw [← hagain]
  exact computePayment_eq hinvoices ht' hc' hcash'

theorem twoInvoices_fixed :
    (twoInvoices.retyped (computePayment [marchInvoice "b" "2026-03-09" 100,
        marchInvoice "a" "2026-03-02" 60] twoInvoices [⟨"memo", money 20⟩])).Shows
      (computePayment [marchInvoice "b" "2026-03-09" 100, marchInvoice "a" "2026-03-02" 60]
        twoInvoices [⟨"memo", money 20⟩]) ∧
      computePayment [marchInvoice "b" "2026-03-09" 100, marchInvoice "a" "2026-03-02" 60]
          (twoInvoices.retyped (computePayment [marchInvoice "b" "2026-03-09" 100,
            marchInvoice "a" "2026-03-02" 60] twoInvoices [⟨"memo", money 20⟩]))
          [⟨"memo", money 20⟩] =
        { computePayment [marchInvoice "b" "2026-03-09" 100, marchInvoice "a" "2026-03-02" 60]
            twoInvoices [⟨"memo", money 20⟩] with amountSource := .typed } :=
  preview_fixed _ _ _ (by decide) (by decide +kernel)

end Result

end MyBooks
