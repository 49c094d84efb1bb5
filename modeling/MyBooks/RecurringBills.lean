import MyBooks.RecurringLines

/-!
# What a recurring invoice bills

A line of the template says how it was priced, so that its recurring line is priced the same wherever
it stands: a money line and an amount discount by their own amount, a subtotal and a percent discount
by the lines before (`recurringLine_again`). The copy's lines come to the template's just where what
is left out does not matter to them.
-/

namespace MyBooks

/-- The amount a line has after the lines `before`. -/
def PricedLine.after (o : PricedLine) (before : List PricedLine) : CentAmount :=
  if o.isSubtotal then ⟨amountSum (sinceSubtotal before), amountSum_cents _⟩
  else match o.discountPercent with
    | some p => percentOff (discountBase before) p
    | none => o.amount

/-- A line as it was priced from `l` somewhere. -/
def PricesTo (level : Option PricingLevel) (l : InvoiceComputeLineInput) (o : PricedLine) : Prop :=
  ∃ field s s', priceLine l field s level = .ok s' ∧ s'.out = s.out ++ [o]

section Again

/-- A line as its recurring line is priced after `s`. -/
structure Again (s : Pricing) (o o' : PricedLine) : Prop where
  itemType : o'.itemType = o.itemType
  discountPercent : o'.discountPercent = o.discountPercent
  isTaxable : o'.isTaxable = o.isTaxable
  amount : o'.amount = if o.isSubtotal then centAmount s.group
    else match o.discountPercent with
      | some p => percentOff (s.lastSubtotal.getD s.group) p
      | none => o.amount

variable {l : InvoiceComputeLineInput} {o : PricedLine} {field : String} {level : Option PricingLevel}

theorem itemLinePrice_source {x : Dec × UnitPriceSource} (h : itemLinePrice l level field = .ok x) :
    x.2 ≠ .none := by
  unfold itemLinePrice at h
  simp only [] at h
  split at h
  · obtain rfl := Except.ok.inj h
    simp
  · split at h
    · obtain rfl := Except.ok.inj h
      simp
    · obtain ⟨price, -, h⟩ := bind_eq_ok.mp h
      obtain rfl := pure_eq_ok.mp h
      simp
    · split at h
      · cases h
      · split at h
        · obtain rfl := Except.ok.inj h
          simp
        · cases h
  · split at h
    · cases h
    · split at h
      · obtain rfl := Except.ok.inj h
        simp
      · cases h

/-- A money line says what it is of. -/
structure PricedLine.IsMoney (o : PricedLine) (l : InvoiceComputeLineInput) : Prop where
  itemType : o.itemType = l.item.map (·.type)
  discountPercent : o.discountPercent = none
  source : o.unitPriceSource ≠ .none
  gives : ∃ q u, o.quantity = some q ∧ o.unitPrice = some u ∧ Gives q u o.amount

theorem moneyLine_isMoney (h : moneyLine l field level = .ok o) : o.IsMoney l := by
  obtain ⟨-, -, h⟩ := bind_eq_ok.mp h
  obtain ⟨⟨unitPrice, source⟩, hprice, h⟩ := bind_eq_ok.mp h
  obtain ⟨amount, hamount, h⟩ := bind_eq_ok.mp h
  obtain rfl := pure_eq_ok.mp h
  exact ⟨rfl, rfl, itemLinePrice_source hprice, _, _, rfl, rfl, salesLineAmount_ok.mp hamount⟩

/-- A line priced by a quantity and a price of its own. -/
theorem moneyLine_typed {q u : Dec} {amount : CentAmount} (hq : l.quantity = some q)
    (hu : l.unitPrice = some u) (hgives : Gives q u amount) :
    moneyLine l field level = .ok
      { itemType := l.item.map (·.type), quantity := some q, unitPrice := some u
        unitPriceSource := .input, discountPercent := none, amount := amount
        isTaxable := l.isTaxable } := by
  have hprice : itemLinePrice l level field = .ok (u, .input) := by
    unfold itemLinePrice
    rw [hu]
  unfold moneyLine
  rw [hq, hprice]
  simp only [Option.getD_some, ok_bind, salesLineAmount_ok.mpr hgives]
  unfold parseSalesQuantity
  rw [if_pos hgives.quantity]
  rfl

structure PricedLine.IsPercent (o : PricedLine) (p : Dec) : Prop where
  itemType : o.itemType = some .discount
  discountPercent : o.discountPercent = some p
  range : round4 p = p ∧ 0 < p ∧ p ≤ 100

/-- A discount by amount keeps no quantity. -/
structure PricedLine.IsAmountOff (o : PricedLine) : Prop where
  itemType : o.itemType = some .discount
  discountPercent : o.discountPercent = none
  quantity : o.quantity = none
  source : o.unitPriceSource ≠ .none
  amount : o.amount.val ≤ 0

theorem discountLine_cases {item : PricingItem} {base : Dec} (hitem : item.type = .discount)
    (h : discountLine l field item base = .ok o) : (∃ p, o.IsPercent p) ∨ o.IsAmountOff := by
  obtain ⟨-, h⟩ := ite_error_eq_ok.mp h
  split at h
  · obtain ⟨p, hp, h⟩ := bind_eq_ok.mp h
    obtain rfl := pure_eq_ok.mp h
    exact .inl ⟨p, congrArg some hitem, rfl, (parseDiscountPercent_ok hp).2⟩
  · unfold amountDiscount at h
    split at h
    · cases h
    · obtain ⟨price, -, h⟩ := bind_eq_ok.mp h
      obtain rfl := pure_eq_ok.mp h
      refine .inr ⟨congrArg some hitem, rfl, rfl, ?_, neg_nonpos.mpr (toPlaces_nonneg (abs_nonneg price))⟩
      simp only []
      split_ifs <;> simp

/-- What a line that bills no cost was priced as. -/
inductive PricedAs (l : InvoiceComputeLineInput) (o : PricedLine) : Prop
  | money (h : o.IsMoney l) (hs : o.itemType ≠ some .subtotal) (hd : o.itemType ≠ some .discount)
  | subtotal (item : PricingItem) (hitem : l.item = some item) (htype : item.type = .subtotal)
      (group : Dec) (h : o = subtotalLine group)
  | percent (item : PricingItem) (hitem : l.item = some item) (htype : item.type = .discount)
      (p : Dec) (h : o.IsPercent p)
  | amountOff (item : PricingItem) (hitem : l.item = some item) (htype : item.type = .discount)
      (h : o.IsAmountOff)

theorem pricedAs (hbillable : l.billable = none) (h : PricesTo level l o) : PricedAs l o := by
  obtain ⟨field, s, s', h, hout⟩ := h
  unfold priceLine at h
  split at h
  case h_1 b hb => simp [hbillable] at hb
  case h_2 hitem =>
    obtain ⟨o', ho, h⟩ := bind_eq_ok.mp h
    obtain rfl := pure_eq_ok.mp h
    obtain rfl : o' = o := by simpa [Pricing.pushMoney] using hout
    have hm := moneyLine_isMoney ho
    exact .money hm (by simp [hm.itemType, hitem]) (by simp [hm.itemType, hitem])
  case h_3 item _ hitem =>
    split at h
    · obtain rfl := Except.ok.inj h
      obtain rfl : subtotalLine s.group = o := by simpa [Pricing.pushSubtotal] using hout
      exact .subtotal item hitem (by assumption) s.group rfl
    · obtain ⟨o', ho, h⟩ := bind_eq_ok.mp h
      obtain rfl := pure_eq_ok.mp h
      obtain rfl : o' = o := by simpa [Pricing.pushDiscount] using hout
      rcases discountLine_cases (by assumption) ho with ⟨p, hp⟩ | hamount
      · exact .percent item hitem (by assumption) p hp
      · exact .amountOff item hitem (by assumption) hamount
    · obtain ⟨o', ho, h⟩ := bind_eq_ok.mp h
      obtain rfl := pure_eq_ok.mp h
      obtain rfl : o' = o := by simpa [Pricing.pushMoney] using hout
      have hm := moneyLine_isMoney ho
      exact .money hm (by simp [hm.itemType, hitem]; assumption) (by simp [hm.itemType, hitem]; assumption)

section Branches

variable {s : Pricing} {item : PricingItem}

theorem priceLine_money (hbillable : l.billable = none)
    (hs : l.item.map (·.type) ≠ some .subtotal) (hd : l.item.map (·.type) ≠ some .discount)
    (h : moneyLine l field level = .ok o) : priceLine l field s level = .ok (s.pushMoney o) := by
  unfold priceLine
  rw [hbillable]
  rcases hitem : l.item with _ | item
  · simp only [h, ok_bind]
    rfl
  · rw [hitem] at hs hd
    rcases htype : item.type with _ | _ | _ | _ | _ | _
    case discount => simp [htype] at hd
    case subtotal => simp [htype] at hs
    all_goals
      simp only [htype, h, ok_bind]
      rfl

theorem priceLine_subtotal (hbillable : l.billable = none) (hitem : l.item = some item)
    (htype : item.type = .subtotal) : priceLine l field s level = .ok s.pushSubtotal := by
  unfold priceLine
  rw [hbillable, hitem]
  simp only [htype]

theorem priceLine_discount (hbillable : l.billable = none) (hitem : l.item = some item)
    (htype : item.type = .discount)
    (h : discountLine l field item (s.lastSubtotal.getD s.group) = .ok o) :
    priceLine l field s level = .ok (s.pushDiscount o) := by
  unfold priceLine
  rw [hbillable, hitem]
  simp only [htype, h, ok_bind]
  rfl

theorem discountLine_percent {p base : Dec} (hp : l.discountPercent = some p) (hu : l.unitPrice = none)
    (hrange : round4 p = p ∧ 0 < p ∧ p ≤ 100) : discountLine l field item base = .ok
      { itemType := some item.type, quantity := none, unitPrice := none, unitPriceSource := .input
        discountPercent := some p, amount := percentOff base p, isTaxable := l.isTaxable } := by
  have hparse : parseDiscountPercent p (field ++ ".discountPercent") = .ok p := by
    obtain ⟨h4, h0, h1⟩ := hrange
    unfold parseDiscountPercent
    rw [if_neg (not_not.mpr ⟨h4, h0.le, by linarith⟩), if_neg (not_or.mpr ⟨not_le.mpr h0, not_lt.mpr h1⟩)]
  unfold discountLine percentDiscount
  simp [hp, hu, hparse, pure, Except.pure, bind, Except.bind]

theorem discountLine_amount {u base : Dec} (hp : l.discountPercent = none) (hu : l.unitPrice = some u)
    (hform : round4 u = u ∧ |u| < 10 ^ 15) : discountLine l field item base = .ok
      { itemType := some item.type, quantity := none, unitPrice := some (-round2 |u|)
        unitPriceSource := .input, discountPercent := none
        amount := ⟨-round2 |u|, (Cents.round2 _).neg⟩, isTaxable := l.isTaxable } := by
  have hparse : parseSalesUnitPrice u (field ++ ".unitPrice") = .ok u := by
    unfold parseSalesUnitPrice
    rw [if_pos hform]
  unfold discountLine amountDiscount
  simp [hp, hu, hparse, pure, Except.pure, bind, Except.bind]

end Branches

section Line

variable {items : Id → Option PricingItem} {salesTax : Bool} {st : StoredInvoiceLine}
  {rl : ResolvedInvoiceLine} {c : InvoiceComputeLine}

theorem creditSide_sub (amount : Dec) : (creditSide amount).2 - (creditSide amount).1 = amount := by
  unfold creditSide
  split_ifs with h
  · rw [abs_of_neg h]
    ring
  · rw [abs_of_nonneg (not_lt.mp h)]
    ring

theorem storedLine_signed (hs : c.itemType ≠ some .subtotal) :
    (storedLine rl c).credit - (storedLine rl c).debit = c.amount.val := by
  show (creditSide _).2 - (creditSide _).1 = _
  rw [creditSide_sub, if_neg hs]

/-- A recurring line keeps its line's item and taxes. -/
structure InvoiceLineInput.Keeps (salesTax : Bool) (st : StoredInvoiceLine) (inp : InvoiceLineInput) :
    Prop where
  itemId : inp.itemId = st.itemId
  isTaxable : inp.isTaxable = st.isTaxable
  taxRate : inp.taxRate = if salesTax then none else some (st.taxRate.getD 0)

/-- A money line is billed again by a quantity and a price that give its amount. -/
theorem recurringInvoiceLine_money {q u : Dec} {amount : CentAmount} (hp : st.discountPercent = none)
    (hsource : st.unitPriceSource ≠ some .none) (hq : st.quantity = some q) (hu : st.unitPrice = some u)
    (hgives : Gives q u amount) (hsigned : st.credit - st.debit = amount.val)
    (hkept : st.itemId.isSome ∨ amount.val ≠ 0) : ∃ inp q' u',
      recurringInvoiceLine salesTax st = [inp] ∧ inp.Keeps salesTax st ∧ inp.quantity = some q' ∧
        inp.unitPrice = some u' ∧ Gives q' u' amount := by
  have hround : round2 (q * u) = amount.val := by rw [hgives.eq]; rfl
  unfold recurringInvoiceLine
  simp only [hp, hq, hu, hsigned, Option.isSome_none, Bool.false_eq_true, and_false, if_false,
    reduceCtorEq]
  rw [if_neg fun h => hsource h.2, if_neg fun h => by
    rcases hkept with h' | h'
    · simp [h.2] at h'
    · exact h' h.1]
  by_cases hzero : q = 0
  · have hamount : amount.val = 0 := by
      rw [← hround, hzero, zero_mul]
      exact round2_of_cents Places.zero
    have hround0 : round4 0 = 0 := by decide +kernel
    simp only [Option.filter, hzero, ne_eq, not_true_eq_false, decide_false, Bool.false_eq_true,
      if_false, hamount, hround0]
    refine ⟨_, 1, 0, rfl, ⟨rfl, rfl, rfl⟩, rfl, rfl, ⟨by decide +kernel, by norm_num⟩,
      ⟨hround0, by norm_num⟩, ?_, hgives.inLimit⟩
    exact Subtype.ext (by rw [hamount, mul_zero]; exact (round2_of_cents Places.zero).symm)
  · simp only [Option.filter, ne_eq, hzero, not_false_eq_true, decide_true, if_true, hround,
      hgives.unitPrice.1]
    exact ⟨_, q, u, rfl, ⟨rfl, rfl, rfl⟩, rfl, rfl, hgives⟩

/-- Where the receivables and tax accounts leave a line in, it is billed again unless it is a line of
nothing without an item. -/
def Billed (rl : ResolvedInvoiceLine) (c : InvoiceComputeLine) : Prop :=
  rl.item.isSome ∨ c.amount.val ≠ 0

instance : Decidable (Billed rl c) := inferInstanceAs (Decidable (_ ∨ _))

/-- A recurring line that is priced like the template's wherever it stands. -/
structure BilledAgain (items : Id → Option PricingItem) (salesTax : Bool) (c : InvoiceComputeLine)
    (inp : InvoiceLineInput) : Prop where
  taxRate : inp.taxRate = if salesTax then none else some c.taxRate
  again : ∀ s field, ∃ s' o',
    priceLine (resolveInvoiceLine items inp).toInvoiceComputeLineInput field s none = .ok s' ∧
      s'.out = s.out ++ [o'] ∧ Again s c.toPricedLine o'

theorem resolveInvoiceLine_item (hitems : ∀ item, rl.item = some item → items item.id = some item)
    {inp : InvoiceLineInput} (hid : inp.itemId = rl.item.map (·.id)) :
    (resolveInvoiceLine items inp).item = rl.item := by
  show inp.itemId.bind items = rl.item
  rw [hid]
  rcases h : rl.item with _ | item
  · rfl
  · exact hitems item h

theorem resolveInvoiceLine_taxable (hitems : ∀ item, rl.item = some item → items item.id = some item)
    {inp : InvoiceLineInput} (hid : inp.itemId = rl.item.map (·.id)) (htax : inp.isTaxable = c.isTaxable)
    (hs : rl.item.map (·.type) = some .subtotal → c.isTaxable = false) :
    (resolveInvoiceLine items inp).isTaxable = c.isTaxable := by
  have hitem := resolveInvoiceLine_item hitems hid
  show (if (resolveInvoiceLine items inp).item.map (·.type) = some .subtotal then false
    else inp.isTaxable) = c.isTaxable
  rw [hitem, htax]
  split_ifs with h
  · exact (hs h).symm
  · rfl

theorem recurringLine_money (hitems : ∀ item, rl.item = some item → items item.id = some item)
    (hm : c.toPricedLine.IsMoney rl.toInvoiceComputeLineInput) (hs : c.itemType ≠ some .subtotal)
    (hd : c.itemType ≠ some .discount) (hbilled : Billed rl c) :
    ∃ inp, recurringInvoiceLine salesTax (storedLine rl c) = [inp] ∧
      BilledAgain items salesTax c inp := by
  obtain ⟨q, u, hq, hu, hgives⟩ := hm.gives
  obtain ⟨inp, q', u', hline, hkeeps, hq', hu', hgives'⟩ :=
    @recurringInvoiceLine_money salesTax (storedLine rl c) q u c.amount hm.discountPercent
    (fun h => hm.source (Option.some.inj h)) hq hu hgives (storedLine_signed hs) (by
      rcases hbilled with h | h
      · exact .inl (by simpa [storedLine] using h)
      · exact .inr h)
  refine ⟨inp, hline, hkeeps.taxRate, fun s field => ?_⟩
  have hitem := resolveInvoiceLine_item hitems hkeeps.itemId
  have htaxable := resolveInvoiceLine_taxable (c := c) hitems hkeeps.itemId hkeeps.isTaxable
    fun h => absurd (hm.itemType.trans h) hs
  have htype : (resolveInvoiceLine items inp).item.map (·.type) = c.itemType := by
    rw [hitem, hm.itemType]
  refine ⟨_, _, priceLine_money rfl (htype ▸ hs) (htype ▸ hd) (moneyLine_typed hq' hu' hgives'), rfl,
    htype, hm.discountPercent.symm, htaxable, ?_⟩
  rw [if_neg (by simpa [PricedLine.isSubtotal] using hs), hm.discountPercent]

theorem recurringLine_subtotal (hitems : ∀ item, rl.item = some item → items item.id = some item)
    {item : PricingItem} (hitem : rl.item = some item) (htype : item.type = .subtotal) {group : Dec}
    (ho : c.toPricedLine = subtotalLine group) :
    ∃ inp, recurringInvoiceLine salesTax (storedLine rl c) = [inp] ∧
      BilledAgain items salesTax c inp := by
  have hline : recurringInvoiceLine salesTax (storedLine rl c) =
      [{ accountId := rl.accountId, itemId := rl.item.map (·.id), isTaxable := c.isTaxable
         taxRate := if salesTax then none else some c.taxRate }] := by
    have hp : c.discountPercent = none := congrArg PricedLine.discountPercent ho
    have hsource : c.unitPriceSource = .none := congrArg PricedLine.unitPriceSource ho
    simp [recurringInvoiceLine, storedLine, hitem, hp, hsource]
  have htaxable : c.isTaxable = false := congrArg PricedLine.isTaxable ho
  refine ⟨_, hline, rfl, fun s field => ⟨s.pushSubtotal, subtotalLine s.group, ?_, rfl, ?_⟩⟩
  · exact priceLine_subtotal rfl ((resolveInvoiceLine_item hitems rfl).trans hitem) htype
  · rw [ho]
    exact ⟨rfl, rfl, rfl, rfl⟩

theorem recurringLine_percent (hitems : ∀ item, rl.item = some item → items item.id = some item)
    {item : PricingItem} (hitem : rl.item = some item) (htype : item.type = .discount) {p : Dec}
    (hp : c.toPricedLine.IsPercent p) :
    ∃ inp, recurringInvoiceLine salesTax (storedLine rl c) = [inp] ∧
      BilledAgain items salesTax c inp := by
  have hline : recurringInvoiceLine salesTax (storedLine rl c) =
      [{ accountId := rl.accountId, itemId := rl.item.map (·.id), discountPercent := some p
         isTaxable := c.isTaxable, taxRate := if salesTax then none else some c.taxRate }] := by
    simp [recurringInvoiceLine, storedLine, hitem, hp.discountPercent]
  refine ⟨_, hline, rfl, fun s field => ?_⟩
  have hid : (InvoiceLineInput.mk rl.accountId (rl.item.map (·.id)) none none (some p) c.isTaxable
    (if salesTax then none else some c.taxRate)).itemId = rl.item.map (·.id) := rfl
  have hri := (resolveInvoiceLine_item hitems hid).trans hitem
  have htaxable := resolveInvoiceLine_taxable (c := c) hitems hid rfl fun h => by
    simp [hitem, htype] at h
  refine ⟨_, _, priceLine_discount rfl hri htype (discountLine_percent rfl rfl hp.range), rfl,
    (congrArg some htype).trans hp.itemType.symm, hp.discountPercent.symm, htaxable, ?_⟩
  have hs : c.toPricedLine.isSubtotal = false := by simp [PricedLine.isSubtotal, hp.itemType]
  rw [hs, hp.discountPercent]
  rfl

theorem recurringLine_amountOff (hitems : ∀ item, rl.item = some item → items item.id = some item)
    {item : PricingItem} (hitem : rl.item = some item) (htype : item.type = .discount)
    (hc : c.toPricedLine.IsAmountOff) (hstored : |c.amount.val| < 10 ^ 15) :
    ∃ inp, recurringInvoiceLine salesTax (storedLine rl c) = [inp] ∧
      BilledAgain items salesTax c inp := by
  have hs : c.itemType ≠ some .subtotal := by rw [hc.itemType]; simp
  have hsource : c.unitPriceSource ≠ .none := hc.source
  have hsigned := @storedLine_signed rl c hs
  obtain ⟨inp, hline, hkeeps, hpercent, hprice⟩ : ∃ inp,
      recurringInvoiceLine salesTax (storedLine rl c) = [inp] ∧ inp.Keeps salesTax (storedLine rl c) ∧
        inp.discountPercent = none ∧ inp.unitPrice = some |c.amount.val| := by
    have hround : ∀ {x : Dec}, Cents x → round4 x = x := fun h =>
      toPlaces_of_places (Places.mono (by norm_num) h)
    have hcents := c.amount.property
    unfold recurringInvoiceLine
    simp only [hsigned]
    have hid : (storedLine rl c).itemId = some item.id := by simp [storedLine, hitem]
    have hp : (storedLine rl c).discountPercent = none := hc.discountPercent
    have hq : (storedLine rl c).quantity = none := hc.quantity
    have hsrc : (storedLine rl c).unitPriceSource ≠ some .none := fun h => hsource (Option.some.inj h)
    simp only [hid, hp, hq, Option.isSome_none, Option.isSome_some, Bool.false_eq_true, and_false,
      if_false, true_and, reduceCtorEq, and_true, if_neg hsrc, Option.filter_none]
    rcases lt_or_eq_of_le hc.amount with hneg | hzero
    · rw [if_pos hneg]
      exact ⟨_, rfl, ⟨hid.symm, rfl, rfl⟩, rfl, by rw [abs_of_neg hneg, hround hcents.neg]⟩
    · rw [if_neg (by rw [hzero]; exact lt_irrefl _)]
      exact ⟨_, rfl, ⟨hid.symm, rfl, rfl⟩, rfl, by rw [hround hcents, hzero, abs_zero]⟩
  refine ⟨inp, hline, hkeeps.taxRate, fun s field => ?_⟩
  have hid : inp.itemId = rl.item.map (·.id) := hkeeps.itemId
  have hri := (resolveInvoiceLine_item hitems hid).trans hitem
  have htaxable := resolveInvoiceLine_taxable (c := c) hitems hid hkeeps.isTaxable fun h => by
    simp [hitem, htype] at h
  have habs : Cents |c.amount.val| := by
    rw [abs_of_nonpos hc.amount]
    exact c.amount.property.neg
  refine ⟨_, _, priceLine_discount rfl hri htype (discountLine_amount hpercent hprice
    ⟨toPlaces_of_places (Places.mono (by norm_num) habs), by rwa [abs_abs]⟩), rfl,
    (congrArg some htype).trans hc.itemType.symm, hc.discountPercent.symm, htaxable, ?_⟩
  rw [if_neg (by simp [PricedLine.isSubtotal, hc.itemType]), hc.discountPercent]
  exact Subtype.ext (by
    show -round2 |(|c.amount.val|)| = c.amount.val
    rw [abs_abs, round2_of_cents habs, abs_of_nonpos hc.amount, neg_neg])

/-- A line of the template is billed again as it was priced, or it is nothing without an item. -/
theorem recurringLine_again (salesTax : Bool)
    (hitems : ∀ item, rl.item = some item → items item.id = some item)
    (h : PricedAs rl.toInvoiceComputeLineInput c.toPricedLine)
    (hstored : c.itemType ≠ some .subtotal → |c.amount.val| < 10 ^ 15) (hbilled : Billed rl c) :
    ∃ inp, recurringInvoiceLine salesTax (storedLine rl c) = [inp] ∧
      BilledAgain items salesTax c inp := by
  cases h with
  | money hm hs hd => exact recurringLine_money hitems hm hs hd hbilled
  | subtotal item hitem htype group ho => exact recurringLine_subtotal hitems hitem htype ho
  | percent item hitem htype p hp => exact recurringLine_percent hitems hitem htype hp
  | amountOff item hitem htype hc =>
    exact recurringLine_amountOff hitems hitem htype hc (hstored (by rw [hc.itemType]; simp))

theorem recurringLine_dropped (hbilled : ¬Billed rl c) (hs : c.itemType ≠ some .subtotal) :
    recurringInvoiceLine salesTax (storedLine rl c) = [] := by
  obtain ⟨hitem, hamount⟩ := not_or.mp hbilled
  have hid : (storedLine rl c).itemId = none := by simpa [storedLine] using hitem
  unfold recurringInvoiceLine
  simp [hid, storedLine_signed hs, not_not.mp hamount]

end Line

end Again

/-! ## The lines that are billed again -/

section Kept

/-- A line of the template with its figures. -/
abbrev TemplateLine := ResolvedInvoiceLine × InvoiceComputeLine

variable (ar taxAccount : Id)

/-- A template line that a copy has. -/
def TemplateLine.Kept (p : TemplateLine) : Prop :=
  (p.1.accountId ≠ ar ∧ p.1.accountId ≠ taxAccount) ∧ Billed p.1 p.2

instance (p : TemplateLine) : Decidable (p.Kept ar taxAccount) :=
  inferInstanceAs (Decidable ((_ ∧ _) ∧ _))

def keptLines (ps : List TemplateLine) : List InvoiceComputeLine :=
  (ps.filter fun p => p.Kept ar taxAccount).map (·.2)

variable {ar taxAccount} {salesTax : Bool} {items : Id → Option PricingItem}

/-- The A/R and tax lines are left out, and so are lines posted to their accounts. -/
theorem recurringInvoiceLines_journal (lines : List ResolvedInvoiceLine) (r : InvoiceComputeResult) :
    recurringInvoiceLines (invoiceJournal ar taxAccount lines r) (some ar) (some taxAccount) salesTax =
      ((lines.zip r.lines).filter fun p => p.1.accountId ≠ ar ∧ p.1.accountId ≠ taxAccount).flatMap
        fun p => recurringInvoiceLine salesTax (storedLine p.1 p.2) := by
  have hzip : List.zipWith storedLine lines r.lines =
      (lines.zip r.lines).map fun p => storedLine p.1 p.2 := by
    rw [List.zip, List.map_zipWith]
  unfold recurringInvoiceLines invoiceJournal
  rw [List.filter_cons_of_neg (by simp), List.filter_append, hzip, List.filter_map]
  have htax : List.filter (fun l : StoredInvoiceLine => decide (some l.accountId ≠ some ar ∧
      some l.accountId ≠ some taxAccount ∧ (!l.isBillable) = true))
      (if r.taxTotal = 0 then [] else [{ accountId := taxAccount, debit := (creditSide r.taxTotal).1
                                         credit := (creditSide r.taxTotal).2 }]) = [] := by
    split_ifs <;> simp
  rw [htax, List.append_nil, List.flatMap_map]
  congr 1
  refine List.filter_congr fun p _ => ?_
  simp [storedLine]

/-- A line of the template, priced, over items that are still there. -/
structure TemplateLine.Ok (items : Id → Option PricingItem) (p : TemplateLine) : Prop where
  priced : PricedAs p.1.toInvoiceComputeLineInput p.2.toPricedLine
  items : ∀ item, p.1.item = some item → items item.id = some item
  stored : p.2.itemType ≠ some .subtotal → |p.2.amount.val| < 10 ^ 15

/-- A line and its copy: alike but for the amount of a subtotal or a percent discount. -/
structure Same (o o' : PricedLine) : Prop where
  itemType : o'.itemType = o.itemType
  discountPercent : o'.discountPercent = o.discountPercent
  isTaxable : o'.isTaxable = o.isTaxable
  plain : o.isSubtotal = false → o.discountPercent = none → o'.amount = o.amount

theorem Again.same {s : Pricing} {o o' : PricedLine} (h : Again s o o') : Same o o' := by
  refine ⟨h.itemType, h.discountPercent, h.isTaxable, fun hs hp => ?_⟩
  rw [h.amount, hs, hp]
  rfl

/-- The subtotals of a template are always billed again. -/
theorem TemplateLine.Ok.billed {p : TemplateLine} (h : p.Ok items) (hs : p.2.itemType = some .subtotal) :
    Billed p.1 p.2 := by
  cases h.priced with
  | money hm hns hd => exact absurd hs hns
  | subtotal item hitem htype group ho => exact .inl (by rw [hitem]; rfl)
  | percent item hitem htype p hp => exact .inl (by rw [hitem]; rfl)
  | amountOff item hitem htype hc => exact .inl (by rw [hitem]; rfl)

/-- The recurring lines of template lines. -/
def recurringOf (ar taxAccount : Id) (salesTax : Bool) (ps : List TemplateLine) : List InvoiceLineInput :=
  (ps.filter fun p => p.1.accountId ≠ ar ∧ p.1.accountId ≠ taxAccount).flatMap
    fun p => recurringInvoiceLine salesTax (storedLine p.1 p.2)

theorem recurringOf_cons_dropped {p : TemplateLine} {ps : List TemplateLine} (h : p.Ok items)
    (hkept : ¬p.Kept ar taxAccount) :
    recurringOf ar taxAccount salesTax (p :: ps) = recurringOf ar taxAccount salesTax ps := by
  unfold recurringOf
  by_cases hacct : p.1.accountId ≠ ar ∧ p.1.accountId ≠ taxAccount
  · have hbilled : ¬Billed p.1 p.2 := fun hb => hkept ⟨hacct, hb⟩
    rw [List.filter_cons_of_pos (by simpa using hacct), List.flatMap_cons,
      recurringLine_dropped hbilled fun hs => hbilled (h.billed hs), List.nil_append]
  · rw [List.filter_cons_of_neg (by simpa using hacct)]

theorem recurringOf_cons_kept (salesTax : Bool) {p : TemplateLine} (ps : List TemplateLine)
    (h : p.Ok items) (hkept : p.Kept ar taxAccount) : ∃ inp, recurringOf ar taxAccount salesTax (p :: ps) =
      inp :: recurringOf ar taxAccount salesTax ps ∧ BilledAgain items salesTax p.2 inp := by
  obtain ⟨inp, hinp, hagain⟩ := recurringLine_again salesTax h.items h.priced h.stored hkept.2
  refine ⟨inp, ?_, hagain⟩
  unfold recurringOf
  rw [List.filter_cons_of_pos (by simpa using hkept.1), List.flatMap_cons, hinp, List.singleton_append]

/-- The copy is always priced, its lines the same as those kept. -/
theorem copy_priced : ∀ {ps : List TemplateLine} (s : Pricing) (i : ℕ), (∀ p ∈ ps, p.Ok items) →
    ∃ s' outs, ((((recurringOf ar taxAccount salesTax ps).map fun inp =>
        (resolveInvoiceLine items inp).toInvoiceComputeLineInput).zipIdx i).foldlM
          (fun s p => priceLine p.1 s!"lines[{p.2}]" s none) s : Except InvoiceError Pricing) = .ok s' ∧
      s'.out = s.out ++ outs ∧
      List.Forall₂ Same ((keptLines ar taxAccount ps).map (·.toPricedLine)) outs ∧
      (recurringOf ar taxAccount salesTax ps).map (·.taxRate) = (keptLines ar taxAccount ps).map
        fun c => if salesTax then none else some c.taxRate
  | [], s, i, _ => ⟨s, [], rfl, (List.append_nil _).symm, .nil, rfl⟩
  | p :: ps, s, i, h => by
    obtain ⟨hp, hps⟩ := List.forall_mem_cons.mp h
    by_cases hkept : p.Kept ar taxAccount
    · obtain ⟨inp, hcons, hagain⟩ := recurringOf_cons_kept salesTax ps hp hkept
      obtain ⟨s₁, o, hs₁, hout, hsame⟩ := hagain.again s s!"lines[{i}]"
      obtain ⟨s', outs, hs', hout', hall, hrates⟩ := copy_priced s₁ (i + 1) hps
      have hk : keptLines ar taxAccount (p :: ps) = p.2 :: keptLines ar taxAccount ps := by
        simp [keptLines, hkept]
      refine ⟨s', o :: outs, ?_, ?_, ?_, ?_⟩
      · rw [hcons, List.map_cons, List.zipIdx_cons]
        exact foldlM_cons_ok.mpr ⟨s₁, hs₁, hs'⟩
      · rw [hout', hout, List.append_assoc]
        rfl
      · rw [hk]
        exact .cons hsame.same hall
      · rw [hcons, hk, List.map_cons, List.map_cons, hrates, hagain.taxRate]
    · have hk : keptLines ar taxAccount (p :: ps) = keptLines ar taxAccount ps := by
        simp [keptLines, hkept]
      rw [recurringOf_cons_dropped hp hkept, hk]
      exact copy_priced s i hps

end Kept

/-! ## Where the copy comes to the template -/

section Places

/-- What later lines read of a line. -/
def PricedLine.key (o : PricedLine) : Option SalesItemType × CentAmount := (o.itemType, o.amount)

theorem amountSum_key {out out' : List PricedLine} (h : out.map (·.key) = out'.map (·.key)) :
    amountSum out = amountSum out' := by
  have hsum : ∀ out : List PricedLine, amountSum out = ((out.map (·.key)).map (·.2.val)).sum := by
    intro out
    rw [List.map_map]
    rfl
  rw [hsum, hsum, h]

theorem sinceSubtotal_key (before : List PricedLine) : (sinceSubtotal before).map (·.key) =
    ((before.map (·.key)).reverse.takeWhile fun k => !decide (k.1 = some .subtotal)).reverse := by
  rw [← List.map_reverse, List.takeWhile_map, ← List.map_reverse]
  rfl

theorem nearestSubtotal_key (before : List PricedLine) : (nearestSubtotal before).map (·.key) =
    (before.map (·.key)).reverse.find? fun k => decide (k.1 = some .subtotal) := by
  rw [← List.map_reverse, List.find?_map]
  rfl

theorem all_isDiscount_key (out : List PricedLine) : out.all (·.isDiscount) =
    (out.map (·.key)).all fun k => decide (k.1 = some .discount) := by
  rw [List.all_map]
  rfl

theorem discountBase_key {before before' : List PricedLine}
    (h : before.map (·.key) = before'.map (·.key)) : discountBase before = discountBase before' := by
  have hsince : (sinceSubtotal before).map (·.key) = (sinceSubtotal before').map (·.key) := by
    rw [sinceSubtotal_key, sinceSubtotal_key, h]
  have hnearest : (nearestSubtotal before).map (·.key) = (nearestSubtotal before').map (·.key) := by
    rw [nearestSubtotal_key, nearestSubtotal_key, h]
  have hall : (sinceSubtotal before).all (·.isDiscount) = (sinceSubtotal before').all (·.isDiscount) := by
    rw [all_isDiscount_key, all_isDiscount_key, hsince]
  unfold discountBase
  rw [amountSum_key hsince, hall]
  rcases hn : nearestSubtotal before with _ | o <;> rcases hn' : nearestSubtotal before' with _ | o'
  · rfl
  · simp [hn, hn'] at hnearest
  · simp [hn, hn'] at hnearest
  · rw [hn, hn'] at hnearest
    have hamount : o.amount = o'.amount := congrArg Prod.snd (Option.some.inj hnearest)
    simp only [hamount]

/-- A line and its copy come to the same after lines that came to the same. -/
theorem Same.after {o o' : PricedLine} {before before' : List PricedLine} (h : Same o o')
    (hbefore : before.map (·.key) = before'.map (·.key)) : o'.after before' = o.after before := by
  have hsince : (sinceSubtotal before).map (·.key) = (sinceSubtotal before').map (·.key) := by
    rw [sinceSubtotal_key, sinceSubtotal_key, hbefore]
  have hs : o'.isSubtotal = o.isSubtotal := by
    unfold PricedLine.isSubtotal
    rw [h.itemType]
  unfold PricedLine.after
  rw [hs, h.discountPercent]
  split_ifs with hsub
  · exact Subtype.ext (amountSum_key hsince).symm
  · rcases hp : o.discountPercent with _ | p
    · exact h.plain (by simpa using hsub) hp
    · simp only [discountBase_key hbefore]

/-- Every line has the amount its place gives it. -/
def PricedInPlace : List PricedLine → List PricedLine → Prop
  | _, [] => True
  | before, o :: out => o.amount = o.after before ∧ PricedInPlace (before ++ [o]) out

/-- Copies in their places come to the lines copied just where these are in their places too. -/
theorem amounts_eq_iff_inPlace {out out' before before' : List PricedLine}
    (hsame : List.Forall₂ Same out out') (hbefore : before.map (·.key) = before'.map (·.key))
    (hplaces : PricedInPlace before' out') :
    out'.map (·.amount) = out.map (·.amount) ↔ PricedInPlace before out := by
  induction hsame generalizing before before' with
  | nil => exact ⟨fun _ => trivial, fun _ => rfl⟩
  | @cons o o' out out' ho _ ih =>
    have hstep : o'.amount = o.amount ↔ o.amount = o.after before := by
      rw [hplaces.1, ho.after hbefore]
      exact eq_comm
    rw [List.map_cons, List.map_cons, List.cons.injEq, hstep]
    refine and_congr_right fun hamount => ih ?_ hplaces.2
    have hkey : o.key = o'.key := Prod.ext ho.itemType.symm (hstep.mpr hamount).symm
    rw [List.map_append, List.map_append, hbefore, List.map_singleton, List.map_singleton, hkey]

variable {level : Option PricingLevel}

theorem PricedAs.inPlace {l : InvoiceComputeLineInput} {o : PricedLine} {before : List PricedLine}
    (h : PricedAs l o) (hfits : o.Fits before) : o.amount = o.after before := by
  unfold PricedLine.after
  cases h with
  | money hm hs hd =>
    rw [if_neg (by simpa [PricedLine.isSubtotal] using hs), hm.discountPercent]
  | subtotal item hitem htype group ho =>
    have hs : o.isSubtotal = true := by rw [ho]; rfl
    rw [if_pos hs]
    exact Subtype.ext (hfits.subtotal hs)
  | percent item hitem htype p hp =>
    have hd : o.isDiscount = true := by simp [PricedLine.isDiscount, hp.itemType]
    rw [if_neg (by simp [PricedLine.isSubtotal, hp.itemType]), hp.discountPercent]
    exact (hfits.percent hd p hp.discountPercent).2.2.1
  | amountOff item hitem htype hc =>
    rw [if_neg (by simp [PricedLine.isSubtotal, hc.itemType]), hc.discountPercent]

theorem priceLine_out {l : InvoiceComputeLineInput} {field : String} {s s' : Pricing}
    (h : priceLine l field s level = .ok s') : ∃ o, s'.out = s.out ++ [o] := by
  unfold priceLine at h
  split at h
  · obtain rfl := Except.ok.inj h
    exact ⟨_, rfl⟩
  · obtain ⟨o, -, h⟩ := bind_eq_ok.mp h
    obtain rfl := pure_eq_ok.mp h
    exact ⟨o, rfl⟩
  · split at h
    · obtain rfl := Except.ok.inj h
      exact ⟨_, rfl⟩
    · obtain ⟨o, -, h⟩ := bind_eq_ok.mp h
      obtain rfl := pure_eq_ok.mp h
      exact ⟨o, rfl⟩
    · obtain ⟨o, -, h⟩ := bind_eq_ok.mp h
      obtain rfl := pure_eq_ok.mp h
      exact ⟨o, rfl⟩

theorem priceLines_pricesTo {lines : List InvoiceComputeLineInput} {s : Pricing}
    (h : priceLines level lines = .ok s) : List.Forall₂ (PricesTo level) lines s.out := by
  have hrun : ∀ {lines : List InvoiceComputeLineInput} (i : ℕ) {s s' : Pricing},
      (lines.zipIdx i).foldlM (fun s p => priceLine p.1 s!"lines[{p.2}]" s level) s = .ok s' →
      ∃ outs, s'.out = s.out ++ outs ∧ List.Forall₂ (PricesTo level) lines outs := by
    intro lines
    induction lines with
    | nil =>
      intro i s s' h
      rw [← foldlM_nil_ok.mp h]
      exact ⟨[], (List.append_nil _).symm, .nil⟩
    | cons l lines ih =>
      intro i s s' h
      obtain ⟨c, hc, h⟩ := foldlM_cons_ok.mp h
      obtain ⟨o, ho⟩ := priceLine_out hc
      obtain ⟨outs, houts, hall⟩ := ih (i + 1) h
      exact ⟨o :: outs, by rw [houts, ho, List.append_assoc]; rfl, .cons ⟨_, _, _, hc, ho⟩ hall⟩
  obtain ⟨outs, houts, hall⟩ := hrun 0 h
  rwa [houts]

theorem inPlace_of_fits {lines : List InvoiceComputeLineInput} {out : List PricedLine}
    (h : List.Forall₂ PricedAs lines out) (before : List PricedLine)
    (hfits : ∀ (i : ℕ) (o : PricedLine), out[i]? = some o → o.Fits (before ++ out.take i)) :
    PricedInPlace before out := by
  induction h generalizing before with
  | nil => trivial
  | @cons l o lines out ho _ ih =>
    refine ⟨ho.inPlace (by simpa using hfits 0 o rfl), ih (before ++ [o]) fun i o' hi => ?_⟩
    have := hfits (i + 1) o' hi
    rwa [List.take_succ_cons, List.append_cons] at this

/-- Lines that bill no cost are priced in their places. -/
theorem priceLines_inPlace {lines : List InvoiceComputeLineInput} {s : Pricing}
    (hbillable : ∀ l ∈ lines, l.billable = none) (h : priceLines level lines = .ok s) :
    List.Forall₂ PricedAs lines s.out ∧ PricedInPlace [] s.out := by
  have hall : List.Forall₂ PricedAs lines s.out :=
    ((List.forall₂_and_left _ _).mpr ⟨hbillable, priceLines_pricesTo h⟩).imp fun _ _ hl => pricedAs hl.1 hl.2
  have htracks := priceLines_tracks (fun l hl hb => by simp [hbillable l hl] at hb) h
  exact ⟨hall, inPlace_of_fits hall [] htracks.grouped⟩

end Places

section Template

variable (ar taxAccount : Id)

/-- Each kept line comes to the same after the lines before it and after the kept ones of them. -/
def CarryFrom : List PricedLine → List PricedLine → List TemplateLine → Prop
  | _, _, [] => True
  | all, kept, p :: ps =>
    if p.Kept ar taxAccount then
      p.2.toPricedLine.after kept = p.2.toPricedLine.after all ∧
        CarryFrom (all ++ [p.2.toPricedLine]) (kept ++ [p.2.toPricedLine]) ps
    else CarryFrom (all ++ [p.2.toPricedLine]) kept ps

/-- The lines a copy leaves out that are in the template's subtotal. -/
def droppedLines (ps : List TemplateLine) : List PricedLine :=
  ((ps.filter fun p => ¬p.Kept ar taxAccount).map (·.2.toPricedLine)).filter fun o => !o.isSubtotal

/-- The kept lines as they are taxed on a copy: at their stored rates, or by the copy's sales tax. -/
def keptAmounts (bySalesTax : Bool) (ps : List TemplateLine) : List SalesAmountInput :=
  (keptLines ar taxAccount ps).map fun c =>
    salesAmount (if bySalesTax then none else some c.taxRate) c.toPricedLine

/-- A template whose copies bill the same: the lines left out matter to none of the others and add to
nothing, and the others can be taxed. -/
structure CarriesOver (bySalesTax : Bool) (defaultTaxRate : Option Dec) (salesTax : Option SalesTaxUnit)
    (ps : List TemplateLine) : Prop where
  lines : CarryFrom ar taxAccount [] [] ps
  dropped : amountSum (droppedLines ar taxAccount ps) = 0
  taxed : ∃ totals, computeSalesTotals (keptAmounts ar taxAccount bySalesTax ps) defaultTaxRate salesTax =
    .ok totals

/-- The invoice a recurring invoice posts from the stored lines of its template: its items as they are,
and no price level. -/
def recurringInvoice (items : Id → Option PricingItem) (journal : List StoredInvoiceLine)
    (bySalesTax : Bool) (defaultTaxRate : Option Dec) (salesTax : Option SalesTaxUnit) :
    Except InvoiceError InvoiceComputeResult :=
  computeInvoice ((recurringInvoiceLines journal (some ar) (some taxAccount) bySalesTax).map fun l =>
    (resolveInvoiceLine items l).toInvoiceComputeLineInput) defaultTaxRate none salesTax

variable {ar taxAccount} {items : Id → Option PricingItem} {bySalesTax : Bool}
  {defaultTaxRate : Option Dec} {salesTax : Option SalesTaxUnit}

theorem carryFrom_iff_inPlace {ps : List TemplateLine} {all kept : List PricedLine}
    (hall : PricedInPlace all (ps.map (·.2.toPricedLine))) : CarryFrom ar taxAccount all kept ps ↔
      PricedInPlace kept ((keptLines ar taxAccount ps).map (·.toPricedLine)) := by
  induction ps generalizing all kept with
  | nil => exact Iff.rfl
  | cons p ps ih =>
    obtain ⟨hp, hrest⟩ := hall
    unfold CarryFrom
    by_cases hkept : p.Kept ar taxAccount
    · rw [if_pos hkept, ih hrest, ← hp, eq_comm]
      simp [keptLines, hkept, PricedInPlace]
    · rw [if_neg hkept, ih hrest]
      simp [keptLines, hkept]

/-- What the lines come to is what the kept ones and the dropped ones come to. -/
theorem amountSum_kept_dropped (ps : List TemplateLine) :
    amountSum ((ps.map (·.2.toPricedLine)).filter fun o => !o.isSubtotal) =
      amountSum (((keptLines ar taxAccount ps).map (·.toPricedLine)).filter fun o => !o.isSubtotal) +
        amountSum (droppedLines ar taxAccount ps) := by
  induction ps with
  | nil => exact (add_zero 0).symm
  | cons p ps ih =>
    rw [List.map_cons, amountSum_filter_cons, ih]
    by_cases hkept : p.Kept ar taxAccount
    · have hk : keptLines ar taxAccount (p :: ps) = p.2 :: keptLines ar taxAccount ps := by
        simp [keptLines, hkept]
      have hd : droppedLines ar taxAccount (p :: ps) = droppedLines ar taxAccount ps := by
        simp [droppedLines, hkept]
      rw [hk, hd, List.map_cons, amountSum_filter_cons]
      ring
    · have hk : keptLines ar taxAccount (p :: ps) = keptLines ar taxAccount ps := by
        simp [keptLines, hkept]
      have hd : amountSum (droppedLines ar taxAccount (p :: ps)) =
          (if p.2.toPricedLine.isSubtotal then 0 else p.2.amount.val) +
            amountSum (droppedLines ar taxAccount ps) := by
        unfold droppedLines
        rw [List.filter_cons_of_pos (by simpa using hkept), List.map_cons, amountSum_filter_cons]
      rw [hk, hd]
      ring

/-- Copies at their lines' amounts are taxed as these. -/
theorem salesAmounts_same {f : InvoiceComputeLine → Option Dec} {kept : List InvoiceComputeLine}
    {inputs : List InvoiceComputeLineInput} {outs : List PricedLine}
    (hsame : List.Forall₂ Same (kept.map (·.toPricedLine)) outs)
    (hamounts : outs.map (·.amount) = (kept.map (·.toPricedLine)).map (·.amount))
    (hrates : inputs.map (·.taxRate) = kept.map f) :
    List.zipWith (fun l o => salesAmount l.taxRate o) inputs outs =
      kept.map fun c => salesAmount (f c) c.toPricedLine := by
  induction kept generalizing inputs outs with
  | nil => rw [List.map_eq_nil_iff.mp hrates]; rfl
  | cons c kept ih =>
    obtain ⟨l, inputs, rfl⟩ : ∃ l ls, inputs = l :: ls := by
      cases inputs with
      | nil => cases hrates
      | cons l ls => exact ⟨l, ls, rfl⟩
    rw [List.map_cons] at hsame
    cases hsame with
    | @cons _ o _ outs ho hrest =>
      obtain ⟨hamount, hamounts⟩ := List.cons.inj hamounts
      obtain ⟨hrate, hrates⟩ := List.cons.inj hrates
      rw [List.zipWith_cons_cons, List.map_cons, ih hrest hamounts hrates]
      congr 1
      unfold salesAmount
      rw [show l.taxRate = f c from hrate, ho.itemType, ho.isTaxable,
        show o.amount = c.amount from hamount]

theorem plainSum_same {out outs : List PricedLine} (hsame : List.Forall₂ Same out outs)
    (hamounts : outs.map (·.amount) = out.map (·.amount)) :
    amountSum (outs.filter fun o => !o.isSubtotal) = amountSum (out.filter fun o => !o.isSubtotal) := by
  induction hsame with
  | nil => rfl
  | @cons o o' out outs ho _ ih =>
    obtain ⟨hamount, hamounts⟩ := List.cons.inj hamounts
    have hs : o'.isSubtotal = o.isSubtotal := by
      unfold PricedLine.isSubtotal
      rw [ho.itemType]
    rw [amountSum_filter_cons, amountSum_filter_cons, ih hamounts, hs,
      show o'.amount = o.amount from hamount]

theorem computeInvoice_isOk {lines : List InvoiceComputeLineInput} {level : Option PricingLevel}
    {s : Pricing} (hs : priceLines level lines = .ok s) :
    (∃ r, computeInvoice lines defaultTaxRate level salesTax = .ok r) ↔
      ∃ totals, computeSalesTotals (List.zipWith (fun l o => salesAmount l.taxRate o) lines s.out)
        defaultTaxRate salesTax = .ok totals := by
  unfold computeInvoice
  rw [hs, ok_bind]
  cases computeSalesTotals (List.zipWith (fun l o => salesAmount l.taxRate o) lines s.out) defaultTaxRate
    salesTax with
  | error e =>
    constructor
    · rintro ⟨r, h⟩
      cases h
    · rintro ⟨totals, h⟩
      cases h
  | ok totals =>
    constructor
    · exact fun _ => ⟨totals, rfl⟩
    · exact fun _ => ⟨_, rfl⟩

section Stored

variable {lines : List ResolvedInvoiceLine} {rate : Option Dec} {level : Option PricingLevel}
  {taxUnit : Option SalesTaxUnit} {r : InvoiceComputeResult}

/-- The lines of a template, each with its figures, are priced in their places. -/
theorem template_lines (hbillable : ∀ l ∈ lines, l.billable = none)
    (hitems : ∀ l ∈ lines, ∀ item, l.item = some item → items item.id = some item)
    (hstored : ∀ c ∈ r.lines, c.itemType ≠ some .subtotal → |c.amount.val| < 10 ^ 15)
    (h : computeInvoice (lines.map (·.toInvoiceComputeLineInput)) rate level taxUnit = .ok r) :
    (∀ p ∈ lines.zip r.lines, TemplateLine.Ok items p) ∧
      PricedInPlace [] ((lines.zip r.lines).map (·.2.toPricedLine)) ∧
      r.subtotal =
        amountSum (((lines.zip r.lines).map (·.2.toPricedLine)).filter fun o => !o.isSubtotal) := by
  obtain ⟨s, hs, hout, hsubtotal⟩ := computeInvoice_lines h
  obtain ⟨hall, hplaces⟩ := priceLines_inPlace (List.forall_mem_map.mpr hbillable) hs
  rw [← hout, List.forall₂_map_left_iff, List.forall₂_map_right_iff] at hall
  have hzip : (lines.zip r.lines).map (·.2.toPricedLine) = r.lines.map (·.toPricedLine) := by
    have hsnd : (lines.zip r.lines).map Prod.snd = r.lines := List.map_snd_zip hall.length_eq.ge
    conv_rhs => rw [← hsnd, List.map_map]
    rfl
  rw [hzip, hout]
  refine ⟨fun p hp => ?_, hplaces, hsubtotal⟩
  obtain ⟨hl, hc⟩ := List.of_mem_zip (show (p.1, p.2) ∈ _ from hp)
  exact ⟨List.forall₂_zip hall hp, hitems p.1 hl, hstored p.2 hc⟩

/-- The lines of a copy are priced in their places, each the same as the line it copies. -/
theorem copy_lines (ar taxAccount : Id) (bySalesTax : Bool) {ps : List TemplateLine}
    (hok : ∀ p ∈ ps, p.Ok items) :
    ∃ s', priceLines none ((recurringOf ar taxAccount bySalesTax ps).map fun l =>
        (resolveInvoiceLine items l).toInvoiceComputeLineInput) = .ok s' ∧
      List.Forall₂ Same ((keptLines ar taxAccount ps).map (·.toPricedLine)) s'.out ∧
      PricedInPlace [] s'.out ∧
      ((recurringOf ar taxAccount bySalesTax ps).map fun l =>
          (resolveInvoiceLine items l).toInvoiceComputeLineInput).map (·.taxRate) =
        (keptLines ar taxAccount ps).map fun c => if bySalesTax then none else some c.taxRate := by
  obtain ⟨s', outs, hs', hout, hsame, hrates⟩ := copy_priced {} 0 hok
  have hout : s'.out = outs := hout.trans (List.nil_append outs)
  refine ⟨s', hs', hout ▸ hsame, ?_, ?_⟩
  · exact (priceLines_inPlace (List.forall_mem_map.mpr fun _ _ => rfl) hs').2
  · rw [List.map_map]
    exact hrates

/-- The invoice a recurring invoice posts has the amounts of the template's lines it keeps, and the
template's subtotal, just when the template carries over. -/
theorem recurring_bills_template_iff (hbillable : ∀ l ∈ lines, l.billable = none)
    (hitems : ∀ l ∈ lines, ∀ item, l.item = some item → items item.id = some item)
    (h : computeInvoice (lines.map (·.toInvoiceComputeLineInput)) rate level taxUnit = .ok r)
    (hstored : ∀ c ∈ r.lines, c.itemType ≠ some .subtotal → |c.amount.val| < 10 ^ 15) :
    (∃ r', recurringInvoice ar taxAccount items (invoiceJournal ar taxAccount lines r) bySalesTax
        defaultTaxRate salesTax = .ok r' ∧
      r'.lines.map (·.amount) = (keptLines ar taxAccount (lines.zip r.lines)).map (·.amount) ∧
      r'.subtotal = r.subtotal) ↔
    CarriesOver ar taxAccount bySalesTax defaultTaxRate salesTax (lines.zip r.lines) := by
  obtain ⟨hok, hplaces, hsubtotal⟩ := template_lines hbillable hitems hstored h
  obtain ⟨s', hs', hsame, hcopyPlaces, hrates⟩ := copy_lines ar taxAccount bySalesTax hok
  have hamounts :=
    (amounts_eq_iff_inPlace hsame rfl hcopyPlaces).trans (carryFrom_iff_inPlace hplaces).symm
  unfold recurringInvoice
  rw [recurringInvoiceLines_journal]
  constructor
  · rintro ⟨r', hr', hlines, hsub⟩
    obtain ⟨s'', hs'', hout, hsubtotal'⟩ := computeInvoice_lines hr'
    obtain rfl : s' = s'' := Except.ok.inj (hs'.symm.trans hs'')
    have heq : s'.out.map (·.amount) =
        ((keptLines ar taxAccount (lines.zip r.lines)).map (·.toPricedLine)).map (·.amount) := by
      rw [← hout, List.map_map, List.map_map]
      exact hlines
    refine ⟨hamounts.mp heq, ?_, ?_⟩
    · rw [hsubtotal, hsubtotal', plainSum_same hsame heq, amountSum_kept_dropped] at hsub
      exact left_eq_add.mp hsub
    · have htaxed := (computeInvoice_isOk hs').mp ⟨r', hr'⟩
      rwa [salesAmounts_same hsame heq hrates] at htaxed
  · rintro ⟨hcarry, hdropped, htaxed⟩
    have heq := hamounts.mpr hcarry
    obtain ⟨r', hr'⟩ := (computeInvoice_isOk hs').mpr (by rwa [salesAmounts_same hsame heq hrates])
    obtain ⟨s'', hs'', hout, hsubtotal'⟩ := computeInvoice_lines hr'
    obtain rfl : s' = s'' := Except.ok.inj (hs'.symm.trans hs'')
    refine ⟨r', hr', ?_, ?_⟩
    · rw [← hout, List.map_map, List.map_map] at heq
      exact heq
    · rw [hsubtotal, hsubtotal', plainSum_same hsame heq, amountSum_kept_dropped, hdropped, add_zero]

def shopItems (id : Id) : Option PricingItem :=
  if id = "subtotal" then some ⟨id, .subtotal, none, none⟩
  else if id = "discount" then some ⟨id, .discount, none, some 10⟩
  else none

/-- 100.00, its subtotal, a line of text, and 10% off what stands right above. -/
def textUnderSubtotal : List ResolvedInvoiceLine :=
  [{ accountId := "sales", unitPrice := some 100, isTaxable := false },
   { accountId := "sales", item := shopItems "subtotal", isTaxable := false },
   { accountId := "sales", unitPrice := some 0, isTaxable := false },
   { accountId := "sales", item := shopItems "discount", isTaxable := false }]

/-- What a template comes to, and what its copy does. -/
def templateAndCopy (lines : List ResolvedInvoiceLine) : Except InvoiceError (Dec × Dec) := do
  let r ← computeInvoice (lines.map (·.toInvoiceComputeLineInput)) none none none
  let r' ← recurringInvoice "ar" "tax" shopItems (invoiceJournal "ar" "tax" lines r) false none none
  return (r.subtotal, r'.subtotal)

/-- The text hides the subtotal from the discount, which the copy without it takes. -/
theorem textUnderSubtotal_copied : ∃ r r',
    computeInvoice (textUnderSubtotal.map (·.toInvoiceComputeLineInput)) none none none = .ok r ∧
      recurringInvoice "ar" "tax" shopItems (invoiceJournal "ar" "tax" textUnderSubtotal r) false none
        none = .ok r' ∧ r.subtotal = 100 ∧ r'.subtotal = 90 := by
  have hboth : (templateAndCopy textUnderSubtotal).toOption = some (100, 90) := by decide +kernel
  obtain ⟨figures, hfigures⟩ : ∃ x, templateAndCopy textUnderSubtotal = .ok x := by
    cases h : templateAndCopy textUnderSubtotal with
    | error e =>
      rw [h] at hboth
      cases hboth
    | ok x => exact ⟨x, rfl⟩
  rw [hfigures] at hboth
  obtain ⟨r, hr, h⟩ := bind_eq_ok.mp hfigures
  obtain ⟨r', hr', h⟩ := bind_eq_ok.mp h
  obtain rfl := pure_eq_ok.mp h
  obtain ⟨hsub, hsub'⟩ := Prod.mk.inj (Option.some.inj hboth)
  exact ⟨r, r', hr, hr', hsub, hsub'⟩

theorem textUnderSubtotal_iff : ∃ r,
    computeInvoice (textUnderSubtotal.map (·.toInvoiceComputeLineInput)) none none none = .ok r ∧
      ((∃ r', recurringInvoice "ar" "tax" shopItems (invoiceJournal "ar" "tax" textUnderSubtotal r) false
          none none = .ok r' ∧
        r'.lines.map (·.amount) = (keptLines "ar" "tax" (textUnderSubtotal.zip r.lines)).map (·.amount) ∧
        r'.subtotal = r.subtotal) ↔
      CarriesOver "ar" "tax" false none none (textUnderSubtotal.zip r.lines)) := by
  have hsmall : (match computeInvoice (textUnderSubtotal.map (·.toInvoiceComputeLineInput)) none none none
      with
    | .ok r => r.lines.all fun c => |c.amount.val| < 10 ^ 15
    | .error _ => false) = true := by decide +kernel
  cases h : computeInvoice (textUnderSubtotal.map (·.toInvoiceComputeLineInput)) none none none with
  | error e =>
    rw [h] at hsmall
    cases hsmall
  | ok r =>
    rw [h] at hsmall
    exact ⟨r, rfl, recurring_bills_template_iff (by simp [textUnderSubtotal]) (by decide) h
      fun c hc _ => of_decide_eq_true (List.all_eq_true.mp hsmall c hc)⟩

end Stored

end Template

end MyBooks
