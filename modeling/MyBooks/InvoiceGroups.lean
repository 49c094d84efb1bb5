import MyBooks.InvoiceCompute
import MyBooks.SalesTax

/-!
# Subtotals and discounts of an invoice

The pricing keeps a running group and what is left of a subtotal right above. Said without them: a
subtotal shows what came in since the one before it, and a discount is of the subtotal it stands under,
less the discounts between, or else of what came in since (`computeInvoice_grouped`).
-/

namespace MyBooks

section Before

def PricedLine.isSubtotal (o : PricedLine) : Bool := o.itemType = some .subtotal

def PricedLine.isDiscount (o : PricedLine) : Bool := o.itemType = some .discount

def amountSum (out : List PricedLine) : Dec := (out.map (·.amount.val)).sum

/-- The lines since the last subtotal. -/
def sinceSubtotal (before : List PricedLine) : List PricedLine :=
  (before.reverse.takeWhile fun o => !o.isSubtotal).reverse

def nearestSubtotal (before : List PricedLine) : Option PricedLine :=
  before.reverse.find? (·.isSubtotal)

/-- What a discount after the lines `before` is of. -/
def discountBase (before : List PricedLine) : Dec :=
  match nearestSubtotal before with
  | some subtotal =>
    if (sinceSubtotal before).all (·.isDiscount) then
      subtotal.amount.val + amountSum (sinceSubtotal before)
    else amountSum (sinceSubtotal before)
  | none => amountSum (sinceSubtotal before)

variable {before : List PricedLine} {o : PricedLine}

theorem amountSum_append (before after : List PricedLine) :
    amountSum (before ++ after) = amountSum before + amountSum after := by
  simp [amountSum]

theorem sinceSubtotal_append_of_subtotal (h : o.isSubtotal = true) :
    sinceSubtotal (before ++ [o]) = [] := by
  simp [sinceSubtotal, h]

theorem sinceSubtotal_append (h : o.isSubtotal = false) :
    sinceSubtotal (before ++ [o]) = sinceSubtotal before ++ [o] := by
  simp [sinceSubtotal, h]

theorem nearestSubtotal_append_of_subtotal (h : o.isSubtotal = true) :
    nearestSubtotal (before ++ [o]) = some o := by
  simp [nearestSubtotal, h]

theorem nearestSubtotal_append (h : o.isSubtotal = false) :
    nearestSubtotal (before ++ [o]) = nearestSubtotal before := by
  simp [nearestSubtotal, h]

/-- The sum of the lines since the last subtotal, once a line that is none came in. -/
theorem amountSum_since_append (h : o.isSubtotal = false) :
    amountSum (sinceSubtotal (before ++ [o])) = amountSum (sinceSubtotal before) + o.amount.val := by
  rw [sinceSubtotal_append h, amountSum_append]
  simp [amountSum]

end Before

/-- A line is what its place makes it. -/
structure PricedLine.Fits (o : PricedLine) (before : List PricedLine) : Prop where
  subtotal : o.isSubtotal → o.amount.val = amountSum (sinceSubtotal before)
  discount : o.isDiscount → o.amount.val ≤ 0
  percent : o.isDiscount → ∀ p, o.discountPercent = some p →
    0 < p ∧ p ≤ 100 ∧ o.amount = percentOff (discountBase before) p ∧
      (0 < discountBase before → 0 ≤ discountBase before + o.amount.val)

def Grouped (out : List PricedLine) : Prop :=
  ∀ (i : ℕ) (o : PricedLine), out[i]? = some o → o.Fits (out.take i)

theorem grouped_append {out : List PricedLine} {o : PricedLine} (h : Grouped out) (ho : o.Fits out) :
    Grouped (out ++ [o]) := by
  intro i o' hi
  rcases lt_trichotomy i out.length with hlt | rfl | hgt
  · rw [List.getElem?_append_left hlt] at hi
    rw [List.take_append_of_le_length hlt.le]
    exact h i o' hi
  · obtain rfl : o = o' := by simpa using hi
    rwa [List.take_left']
    rfl
  · rw [List.getElem?_eq_none (by simp; omega)] at hi
    cases hi

/-- A line is the input line `l`, priced. -/
structure PricedLine.Of (o : PricedLine) (level : Option PricingLevel) (l : InvoiceComputeLineInput)
    (field : String) : Prop where
  kind : o.itemType = l.item.map (·.type)
  taxable : o.isTaxable = (!o.isSubtotal && l.isTaxable)
  billable : ∀ b, l.billable = some b → o.amount = b.amount
  /-- Any other line that is no discount and no subtotal is its quantity at its price. -/
  money : l.billable = none → o.isSubtotal = false → o.isDiscount = false →
    ∃ price, itemLinePrice l level field = .ok (price, o.unitPriceSource) ∧
      o.unitPrice = some price ∧ o.quantity = some (l.quantity.getD 1) ∧
      o.amount.val = round2 (l.quantity.getD 1 * price)
  percent : o.isDiscount → o.discountPercent =
    l.discountPercent.or (if l.unitPrice.isSome then none else l.item.bind (·.discountPercent))
  /-- A discount without a percent takes its price off. -/
  off : o.isDiscount → o.discountPercent = none →
    ∃ price, l.unitPrice.or (l.item.bind (·.unitPrice)) = some price ∧
      o.amount.val = -round2 |price|

/-! ## The loop -/

/-- The subtotal a discount after `before` would stand under, less the discounts between. -/
def subtotalAbove (before : List PricedLine) : Option Dec :=
  (nearestSubtotal before).bind fun subtotal =>
    if (sinceSubtotal before).all (·.isDiscount) then
      some (subtotal.amount.val + amountSum (sinceSubtotal before))
    else none

theorem discountBase_eq (before : List PricedLine) :
    discountBase before = (subtotalAbove before).getD (amountSum (sinceSubtotal before)) := by
  unfold discountBase subtotalAbove
  rcases nearestSubtotal before with _ | subtotal
  · rfl
  · simp only [Option.bind_some]
    split_ifs <;> rfl

/-- What the loop carries is what the lines so far say. -/
structure Pricing.Tracks (s : Pricing) : Prop where
  group : s.group = amountSum (sinceSubtotal s.out)
  last : s.lastSubtotal = subtotalAbove s.out
  grouped : Grouped s.out

section Step

variable {s s' : Pricing} {o : PricedLine} {l : InvoiceComputeLineInput} {field : String}
  {level : Option PricingLevel}

theorem Pricing.Tracks.base (h : s.Tracks) : s.lastSubtotal.getD s.group = discountBase s.out := by
  rw [h.last, h.group, discountBase_eq]

theorem amountSum_cents (out : List PricedLine) : Cents (amountSum out) :=
  Places.sum (List.forall_mem_map.mpr fun o _ => o.amount.property)

theorem discountBase_cents (before : List PricedLine) : Cents (discountBase before) := by
  unfold discountBase
  rcases nearestSubtotal before with _ | subtotal
  · exact amountSum_cents _
  · simp only []
    split_ifs
    · exact subtotal.amount.property.add (amountSum_cents _)
    · exact amountSum_cents _

theorem Pricing.Tracks.pushMoney (h : s.Tracks) (hs : o.isSubtotal = false)
    (hd : o.isDiscount = false) : (s.pushMoney o).Tracks := by
  refine ⟨?_, ?_, grouped_append h.grouped ⟨?_, ?_, ?_⟩⟩
  · simp only [Pricing.pushMoney, amountSum_since_append hs, h.group]
  · simp only [Pricing.pushMoney, subtotalAbove, sinceSubtotal_append hs]
    simp [hd]
  · simp [hs]
  · simp [hd]
  · simp [hd]

theorem Pricing.Tracks.pushSubtotal (h : s.Tracks) : s.pushSubtotal.Tracks := by
  have hs : (subtotalLine s.group).isSubtotal = true := rfl
  have hamount : (subtotalLine s.group).amount.val = s.group :=
    round2_of_cents (h.group ▸ amountSum_cents _)
  refine ⟨?_, ?_, grouped_append h.grouped ⟨?_, ?_, ?_⟩⟩
  · simp only [Pricing.pushSubtotal, sinceSubtotal_append_of_subtotal hs]
    rfl
  · simp only [Pricing.pushSubtotal, subtotalAbove, sinceSubtotal_append_of_subtotal hs,
      nearestSubtotal_append_of_subtotal hs, Option.bind_some, hamount]
    simp [amountSum]
  · exact fun _ => hamount.trans h.group
  · exact fun hd => by cases hd
  · exact fun hd => by cases hd

theorem Pricing.Tracks.pushDiscount (h : s.Tracks) (hd : o.isDiscount = true) (ho : o.Fits s.out) :
    (s.pushDiscount o).Tracks := by
  have hs : o.isSubtotal = false := by
    have : o.itemType = some .discount := of_decide_eq_true hd
    simp [PricedLine.isSubtotal, this]
  refine ⟨?_, ?_, grouped_append h.grouped ho⟩
  · simp only [Pricing.pushDiscount, amountSum_since_append hs, h.group]
  · simp only [Pricing.pushDiscount, subtotalAbove, nearestSubtotal_append hs, amountSum_since_append hs,
      h.last]
    rcases nearestSubtotal s.out with _ | subtotal
    · rfl
    · simp only [Option.bind_some, sinceSubtotal_append hs, List.all_append, List.all_cons, hd,
        List.all_nil, Bool.and_true]
      split_ifs
      · simp [add_assoc]
      · rfl

theorem percentOff_nonpos {base p : Dec} (hp : 0 < p) : (percentOff base p).val ≤ 0 := by
  unfold percentOff
  split_ifs with hbase
  · exact neg_nonpos.mpr (toPlaces_nonneg (by positivity))
  · exact le_rfl

/-- A percent takes no more than there is. -/
theorem percentOff_le {base p : Dec} (hbase : 0 < base ∧ Cents base) (hp : p ≤ 100) :
    0 ≤ base + (percentOff base p).val := by
  have hle : round2 (base * p / 100) ≤ round2 base :=
    toPlaces_mono (by rw [div_le_iff₀ (by norm_num)]; exact mul_le_mul_of_nonneg_left hp hbase.1.le)
  rw [round2_of_cents hbase.2] at hle
  unfold percentOff
  rw [if_pos hbase.1]
  simp only []
  linarith

theorem parseDiscountPercent_ok {value p : Dec} (h : parseDiscountPercent value field = .ok p) :
    p = value ∧ round4 p = p ∧ 0 < p ∧ p ≤ 100 := by
  unfold parseDiscountPercent at h
  split_ifs at h with hform hrange
  obtain rfl := Except.ok.inj h
  rw [not_or, not_le, not_lt] at hrange
  exact ⟨rfl, hform.1, hrange⟩

theorem discountLine_fits {item : PricingItem} {before : List PricedLine} (hitem : item.type = .discount)
    (h : discountLine l field item (discountBase before) = .ok o) : o.isDiscount ∧ o.Fits before := by
  obtain ⟨-, h⟩ := ite_error_eq_ok.mp h
  split at h
  · obtain ⟨p, hp, h⟩ := bind_eq_ok.mp h
    obtain rfl := pure_eq_ok.mp h
    obtain ⟨-, -, hp0, hp1⟩ := parseDiscountPercent_ok hp
    refine ⟨by simp [PricedLine.isDiscount, hitem], ?_, fun _ => percentOff_nonpos hp0, ?_⟩
    · simp [PricedLine.isSubtotal, hitem]
    · intro _ q hq
      obtain rfl := Option.some.inj hq
      exact ⟨hp0, hp1, rfl, fun hbase => percentOff_le ⟨hbase, discountBase_cents before⟩ hp1⟩
  · unfold amountDiscount at h
    split at h
    · cases h
    · obtain ⟨price, -, h⟩ := bind_eq_ok.mp h
      obtain rfl := pure_eq_ok.mp h
      refine ⟨by simp [PricedLine.isDiscount, hitem], ?_, fun _ => ?_, ?_⟩
      · simp [PricedLine.isSubtotal, hitem]
      · exact neg_nonpos.mpr (toPlaces_nonneg (abs_nonneg price))
      · intro _ q hq
        cases hq

theorem moneyLine_itemType (h : moneyLine l field level = .ok o) :
    o.itemType = l.item.map (·.type) := by
  obtain ⟨-, -, h⟩ := bind_eq_ok.mp h
  obtain ⟨⟨unitPrice, source⟩, -, h⟩ := bind_eq_ok.mp h
  obtain ⟨amount, -, h⟩ := bind_eq_ok.mp h
  obtain rfl := pure_eq_ok.mp h
  rfl

/-- Every line keeps the tracks. A billable cost names no item. -/
theorem priceLine_tracks (hs : s.Tracks) (hbillable : l.billable.isSome → l.item = none)
    (h : priceLine l field s level = .ok s') : s'.Tracks := by
  unfold priceLine at h
  split at h
  case h_1 b hb =>
    obtain rfl := Except.ok.inj h
    have hitem := hbillable (by rw [hb]; rfl)
    exact hs.pushMoney (by simp [PricedLine.isSubtotal, billableLine, hitem])
      (by simp [PricedLine.isDiscount, billableLine, hitem])
  case h_2 hitem =>
    obtain ⟨o, ho, h⟩ := bind_eq_ok.mp h
    obtain rfl := pure_eq_ok.mp h
    have htype := moneyLine_itemType ho
    exact hs.pushMoney (by simp [PricedLine.isSubtotal, htype, hitem])
      (by simp [PricedLine.isDiscount, htype, hitem])
  case h_3 item _ hitem =>
    split at h
    · obtain rfl := Except.ok.inj h
      exact hs.pushSubtotal
    · obtain ⟨o, ho, h⟩ := bind_eq_ok.mp h
      obtain rfl := pure_eq_ok.mp h
      rw [hs.base] at ho
      obtain ⟨hd, hfits⟩ := discountLine_fits (by assumption) ho
      exact hs.pushDiscount hd hfits
    · obtain ⟨o, ho, h⟩ := bind_eq_ok.mp h
      obtain rfl := pure_eq_ok.mp h
      have htype := moneyLine_itemType ho
      exact hs.pushMoney (by simp [PricedLine.isSubtotal, htype, hitem]; assumption)
        (by simp [PricedLine.isDiscount, htype, hitem]; assumption)

theorem parseSalesQuantity_ok {value q : Dec} (h : parseSalesQuantity value field = .ok q) :
    q = value ∧ round4 q = q ∧ |q| < 10 ^ 8 := by
  unfold parseSalesQuantity at h
  split_ifs at h with hform
  obtain rfl := Except.ok.inj h
  exact ⟨rfl, hform⟩

theorem parseSalesUnitPrice_ok {value p : Dec} (h : parseSalesUnitPrice value field = .ok p) :
    p = value ∧ round4 p = p ∧ |p| < 10 ^ 15 := by
  unfold parseSalesUnitPrice at h
  split_ifs at h with hform
  obtain rfl := Except.ok.inj h
  exact ⟨rfl, hform⟩

/-- A quantity and a price that give an amount. -/
structure Gives (q u : Dec) (amount : CentAmount) : Prop where
  quantity : round4 q = q ∧ |q| < 10 ^ 8
  unitPrice : round4 u = u ∧ |u| < 10 ^ 15
  eq : amount = centAmount (q * u)
  inLimit : |amount.val| < MONEY_LIMIT

theorem salesLineAmount_ok {quantity unitPrice : Dec} {amount : CentAmount} :
    salesLineAmount quantity unitPrice field = .ok amount ↔ Gives quantity unitPrice amount := by
  constructor
  · intro h
    obtain ⟨q, hq, h⟩ := bind_eq_ok.mp h
    obtain ⟨p, hp, h⟩ := bind_eq_ok.mp h
    obtain ⟨hlimit, h⟩ := ite_error_eq_ok.mp h
    obtain rfl := pure_eq_ok.mp h
    obtain ⟨rfl, hform⟩ := parseSalesQuantity_ok hq
    obtain ⟨rfl, hform'⟩ := parseSalesUnitPrice_ok hp
    exact ⟨hform, hform', rfl, not_le.mp hlimit⟩
  · intro h
    obtain rfl := h.eq
    unfold salesLineAmount parseSalesQuantity parseSalesUnitPrice
    rw [if_pos h.quantity, if_pos h.unitPrice]
    exact if_neg (not_le.mpr h.inLimit)

theorem moneyLine_of (hb : l.billable = none) (hs : l.item.map (·.type) ≠ some .subtotal)
    (hd : l.item.map (·.type) ≠ some .discount) (h : moneyLine l field level = .ok o) :
    o.Of level l field := by
  obtain ⟨-, -, h⟩ := bind_eq_ok.mp h
  obtain ⟨⟨price, source⟩, hprice, h⟩ := bind_eq_ok.mp h
  obtain ⟨amount, hamount, h⟩ := bind_eq_ok.mp h
  obtain rfl := pure_eq_ok.mp h
  refine ⟨rfl, by simp [PricedLine.isSubtotal, hs], by simp [hb], fun _ _ _ => ?_,
    by simp [PricedLine.isDiscount, hd], by simp [PricedLine.isDiscount, hd]⟩
  exact ⟨price, hprice, rfl, rfl, congrArg Subtype.val (salesLineAmount_ok.mp hamount).eq⟩

theorem discountLine_of {item : PricingItem} {base : Dec} (hb : l.billable = none)
    (hitem : l.item = some item) (htype : item.type = .discount)
    (h : discountLine l field item base = .ok o) : o.Of level l field := by
  obtain ⟨-, h⟩ := ite_error_eq_ok.mp h
  split at h
  case h_1 percent hpercent =>
    obtain ⟨p, hp, h⟩ := bind_eq_ok.mp h
    obtain rfl := pure_eq_ok.mp h
    obtain ⟨rfl, -⟩ := parseDiscountPercent_ok hp
    exact ⟨by simp [hitem], by simp [PricedLine.isSubtotal, htype], by simp [hb],
      by simp [PricedLine.isDiscount, htype], fun _ => by simpa [hitem] using hpercent.symm, nofun⟩
  case h_2 hpercent =>
    unfold amountDiscount at h
    split at h
    · cases h
    · rename_i raw hraw
      obtain ⟨price, hprice, h⟩ := bind_eq_ok.mp h
      obtain rfl := pure_eq_ok.mp h
      obtain ⟨rfl, -⟩ := parseSalesUnitPrice_ok hprice
      exact ⟨by simp [hitem], by simp [PricedLine.isSubtotal, htype], by simp [hb],
        by simp [PricedLine.isDiscount, htype], fun _ => by simpa [hitem] using hpercent.symm,
        fun _ _ => ⟨price, by simpa [hitem] using hraw, rfl⟩⟩

/-- Every line is priced, for what it is. -/
theorem priceLine_of (h : priceLine l field s level = .ok s') :
    ∃ o : PricedLine, s'.out = s.out ++ [o] ∧
      ((l.billable.isSome → l.item = none) → o.Of level l field) := by
  unfold priceLine at h
  split at h
  case h_1 b hb =>
    obtain rfl := Except.ok.inj h
    refine ⟨_, rfl, fun hbillable => ?_⟩
    have hitem := hbillable (by rw [hb]; rfl)
    refine ⟨rfl, ?_, fun b' hb' => ?_, fun hnone => ?_, ?_, ?_⟩
    · simp [PricedLine.isSubtotal, billableLine, hitem]
    · obtain rfl := Option.some.inj (hb.symm.trans hb')
      rfl
    · rw [hb] at hnone
      cases hnone
    · simp [PricedLine.isDiscount, billableLine, hitem]
    · simp [PricedLine.isDiscount, billableLine, hitem]
  case h_2 hb hitem =>
    obtain ⟨o, ho, h⟩ := bind_eq_ok.mp h
    obtain rfl := pure_eq_ok.mp h
    exact ⟨o, rfl, fun _ => moneyLine_of hb (by simp [hitem]) (by simp [hitem]) ho⟩
  case h_3 item hb hitem =>
    split at h
    case h_1 htype =>
      obtain rfl := Except.ok.inj h
      exact ⟨_, rfl, fun _ => ⟨by simp [hitem, htype, subtotalLine], rfl, by simp [hb], nofun, nofun,
        nofun⟩⟩
    case h_2 htype =>
      obtain ⟨o, ho, h⟩ := bind_eq_ok.mp h
      obtain rfl := pure_eq_ok.mp h
      exact ⟨o, rfl, fun _ => discountLine_of hb hitem htype ho⟩
    case h_3 hsub hdis =>
      obtain ⟨o, ho, h⟩ := bind_eq_ok.mp h
      obtain rfl := pure_eq_ok.mp h
      exact ⟨o, rfl, fun _ =>
        moneyLine_of hb (by simpa [hitem] using hsub) (by simpa [hitem] using hdis) ho⟩

end Step

section Whole

variable {lines : List InvoiceComputeLineInput} {defaultTaxRate : Option Dec}
  {level : Option PricingLevel} {salesTax : Option SalesTaxUnit} {s : Pricing}

/-- Each line of the invoice is the input line in its place, priced. -/
def AllPriced (level : Option PricingLevel) (lines : List InvoiceComputeLineInput)
    (out : List PricedLine) : Prop :=
  List.Forall₂ (fun (p : InvoiceComputeLineInput × ℕ) o => PricedLine.Of o level p.1 s!"lines[{p.2}]")
    lines.zipIdx out

theorem foldlM_priced : ∀ {ps : List (InvoiceComputeLineInput × ℕ)} {s s' : Pricing},
    ps.foldlM (fun s p => priceLine p.1 s!"lines[{p.2}]" s level) s = .ok s' →
    ∃ os, s'.out = s.out ++ os ∧ os.length = ps.length ∧
      ((∀ p ∈ ps, p.1.billable.isSome → p.1.item = none) →
        List.Forall₂ (fun (p : InvoiceComputeLineInput × ℕ) o =>
          PricedLine.Of o level p.1 s!"lines[{p.2}]") ps os)
  | [], s, s', h => ⟨[], by rw [foldlM_nil_ok.mp h, List.append_nil], rfl, fun _ => .nil⟩
  | p :: ps, s, s', h => by
    obtain ⟨s₁, h1, h2⟩ := foldlM_cons_ok.mp h
    obtain ⟨o, ho, hof⟩ := priceLine_of h1
    obtain ⟨os, hos, hlen, hall⟩ := foldlM_priced h2
    refine ⟨o :: os, by rw [hos, ho, List.append_assoc]; rfl, congrArg (· + 1) hlen, fun hb => ?_⟩
    exact .cons (hof (hb p List.mem_cons_self)) (hall fun p hp => hb p (List.mem_cons_of_mem _ hp))

theorem priceLines_length (h : priceLines level lines = .ok s) : s.out.length = lines.length := by
  obtain ⟨os, hos, hlen, -⟩ := foldlM_priced h
  rw [show s.out = os from hos, hlen, List.length_zipIdx]

theorem priceLines_priced (hbillable : ∀ l ∈ lines, l.billable.isSome → l.item = none)
    (h : priceLines level lines = .ok s) : AllPriced level lines s.out := by
  obtain ⟨os, hos, -, hall⟩ := foldlM_priced h
  rw [show s.out = os from hos]
  exact hall fun p hp => hbillable p.1 (List.fst_mem_of_mem_zipIdx hp)

theorem priceLines_tracks (hbillable : ∀ l ∈ lines, l.billable.isSome → l.item = none)
    (h : priceLines level lines = .ok s) : s.Tracks := by
  refine foldlM_keeps Pricing.Tracks (fun p hp c c' hc hstep => ?_) ⟨rfl, rfl, ?_⟩ h
  · exact priceLine_tracks hc (hbillable p.1 (List.fst_mem_of_mem_zipIdx hp)) hstep
  · intro i o hi
    cases hi

/-- The totals are of the lines as they are. -/
theorem computeSalesTotals_subtotal {lines : List SalesAmountInput} {r : SalesDocumentResult}
    (h : computeSalesTotals lines defaultTaxRate salesTax = .ok r) :
    r.subtotal = salesSubtotal lines ∧ r.lines.length = lines.length := by
  have hsubtotal : round2 (salesSubtotal lines) = salesSubtotal lines := round2_of_cents subtotal_cents
  cases salesTax with
  | none =>
    refine ⟨?_, ?_⟩
    · unfold computeSalesTotals at h
      obtain ⟨fallbackRate, -, h⟩ := bind_eq_ok.mp h
      obtain ⟨rateList, -, h⟩ := bind_eq_ok.mp h
      obtain ⟨s, -, h⟩ := bind_eq_ok.mp h
      obtain ⟨-, h⟩ := ite_error_eq_ok.mp h
      obtain rfl := pure_eq_ok.mp h
      exact hsubtotal
    · have hecho := congrArg List.length ((lineTotals_exact defaultTaxRate).2 r h).echo
      simpa using hecho
  | some taxUnit =>
    obtain ⟨taxes, memberTax, -, -, -, -, heq⟩ := computeWithSalesTax_eq lines taxUnit
    have h' : computeWithSalesTax lines taxUnit = .ok r := h
    rw [heq] at h'
    obtain ⟨-, h'⟩ := ite_error_eq_ok.mp h'
    obtain rfl := Except.ok.inj h'
    exact ⟨hsubtotal, by simp [oneTaxDocument, lineResults]⟩

theorem salesAmount_val (taxRate : Option Dec) (o : PricedLine) :
    (salesAmount taxRate o).amount.val = if o.isSubtotal then 0 else o.amount.val := by
  unfold salesAmount PricedLine.isSubtotal
  by_cases hs : o.itemType = some .subtotal
  · simp [hs]
  · simp [hs]

theorem amountSum_filter_cons (o : PricedLine) (out : List PricedLine) :
    amountSum ((o :: out).filter fun o => !o.isSubtotal) =
      (if o.isSubtotal then 0 else o.amount.val) + amountSum (out.filter fun o => !o.isSubtotal) := by
  rw [List.filter_cons]
  by_cases hs : o.isSubtotal
  · simp [hs]
  · simp [hs, amountSum]

theorem salesSubtotal_zipWith {lines : List InvoiceComputeLineInput} {out : List PricedLine}
    (h : out.length = lines.length) :
    salesSubtotal (List.zipWith (fun l o => salesAmount l.taxRate o) lines out) =
      amountSum (out.filter fun o => !o.isSubtotal) := by
  induction lines generalizing out with
  | nil =>
    rw [List.length_eq_zero_iff.mp h]
    rfl
  | cons l lines ih =>
    cases out with
    | nil => cases h
    | cons o out =>
      have hsum : ∀ (x : SalesAmountInput) xs, salesSubtotal (x :: xs) = x.amount.val + salesSubtotal xs :=
        fun _ _ => rfl
      rw [List.zipWith_cons_cons, hsum, ih (Nat.succ.inj h), salesAmount_val, amountSum_filter_cons]

theorem map_toPricedLine : ∀ {out : List PricedLine} {ts : List SalesLineResult},
    ts.length = out.length → (List.zipWith (fun (o : PricedLine) (t : SalesLineResult) =>
      { o with taxRate := t.taxRate, taxAmount := t.taxAmount : InvoiceComputeLine }) out ts).map
        (·.toPricedLine) = out
  | [], [], _ => rfl
  | o :: out, t :: ts, h => by
    rw [List.zipWith_cons_cons, List.map_cons, map_toPricedLine (Nat.succ.inj h)]

/-- The lines of a priced invoice, and their sum. -/
theorem computeInvoice_lines {r : InvoiceComputeResult}
    (h : computeInvoice lines defaultTaxRate level salesTax = .ok r) :
    ∃ s, priceLines level lines = .ok s ∧ r.lines.map (·.toPricedLine) = s.out ∧
      r.subtotal = amountSum (s.out.filter fun o => !o.isSubtotal) := by
  obtain ⟨s, hs, h⟩ := bind_eq_ok.mp h
  have hlen := priceLines_length hs
  split at h
  · cases h
  · rename_i totals htotals
    obtain rfl := pure_eq_ok.mp h
    obtain ⟨hsubtotal, hlines⟩ := computeSalesTotals_subtotal htotals
    rw [List.length_zipWith, hlen, Nat.min_self] at hlines
    exact ⟨s, hs, map_toPricedLine (hlines.trans hlen.symm), hsubtotal.trans (salesSubtotal_zipWith hlen)⟩

/-- Each line is its input line priced; a subtotal shows its group, a discount takes of what it stands
under, and the invoice's subtotal is the sum of its other lines. -/
theorem computeInvoice_grouped {r : InvoiceComputeResult}
    (hbillable : ∀ l ∈ lines, l.billable.isSome → l.item = none)
    (h : computeInvoice lines defaultTaxRate level salesTax = .ok r) :
    AllPriced level lines (r.lines.map (·.toPricedLine)) ∧
      Grouped (r.lines.map (·.toPricedLine)) ∧
      r.subtotal = amountSum ((r.lines.map (·.toPricedLine)).filter fun o => !o.isSubtotal) := by
  obtain ⟨s, hs, hlines, hsubtotal⟩ := computeInvoice_lines h
  rw [hlines]
  exact ⟨priceLines_priced hbillable hs, (priceLines_tracks hbillable hs).grouped, hsubtotal⟩

def plainLine (quantity unitPrice : Dec) : InvoiceComputeLineInput :=
  { quantity := some quantity, unitPrice := some unitPrice, isTaxable := false }

def itemLine (type : SalesItemType) (percent : Option Dec) : InvoiceComputeLineInput :=
  { item := some ⟨"item", type, none, percent⟩, isTaxable := false }

/-- Two discounts under a subtotal, and a line and a billable cost after them. -/
def stacked : List InvoiceComputeLineInput :=
  [plainLine 2 50, itemLine .subtotal none, itemLine .discount (some 10), itemLine .discount (some 5),
    plainLine 1 20, { isTaxable := false, billable := some ⟨centAmount 30, 1, 30⟩ },
    itemLine .discount (some 10)]

theorem stacked_grouped : ∃ r, computeInvoice stacked none none none = .ok r ∧
    r.lines.map (·.amount.val) = [100, 100, -10, -4.5, 20, 30, -3.55] ∧ r.subtotal = 131.95 ∧
    AllPriced none stacked (r.lines.map (·.toPricedLine)) ∧
    Grouped (r.lines.map (·.toPricedLine)) ∧
      r.subtotal = amountSum ((r.lines.map (·.toPricedLine)).filter fun o => !o.isSubtotal) := by
  have hrun : (computeInvoice stacked none none none).toOption.map
      (fun r => (r.lines.map (·.amount.val), r.subtotal)) =
        some ([100, 100, -10, -4.5, 20, 30, -3.55], 131.95) := by
    decide +kernel
  cases h : computeInvoice stacked none none none with
  | error e =>
    rw [h] at hrun
    cases hrun
  | ok r =>
    rw [h] at hrun
    obtain ⟨hamounts, hsub⟩ := Prod.mk.inj (Option.some.inj hrun)
    exact ⟨r, rfl, hamounts, hsub, computeInvoice_grouped (by decide) h⟩

end Whole

end MyBooks
