import MyBooks.Payments

/-!
# Where tax shares stay inside their settlement

The tax that settlements move telescopes: over a whole invoice each item's parts come to its tax
(`itemParts_telescopes`). Every share can be split. But each item's cents are rounded on their own,
and the left-over cents of several items may all go to one small discount. A payment's shares stay
inside its discounts and write-offs just where these cents have room (`shares_inside_iff`), and only
then do its lines balance for sure.
-/

namespace MyBooks

/-- What a settlement takes off an invoice. -/
structure Settlement where
  cash : Dec
  discount : Dec
  writeOff : Dec
  deriving DecidableEq, Repr

def Settlement.amount (s : Settlement) : Dec := s.cash + s.discount + s.writeOff

structure Settlement.Ok (s : Settlement) : Prop where
  cash : 0 ≤ s.cash ∧ Cents s.cash
  discount : 0 ≤ s.discount ∧ Cents s.discount
  writeOff : 0 ≤ s.writeOff ∧ Cents s.writeOff
  something : 0 < s.amount

/-- An invoice total, as a money column holds it, with room for a settlement of `s`. -/
structure HasRoom (total before s : Dec) : Prop where
  stored : Places 4 total ∧ total < 10 ^ 15
  settled : 0 ≤ before ∧ Places 4 before
  within : before + s ≤ total

/-- A tax item of an invoice of `total`. -/
structure InvoiceTaxItem.Of (total : Dec) (item : InvoiceTaxItem) : Prop where
  tax : 0 ≤ item.tax ∧ Cents item.tax
  within : item.tax ≤ total

section Parts

/-- The parts of an item's tax that the cash, the discount and the write-off of a settlement get. -/
def itemParts (total settledBefore c d w : Dec) (item : InvoiceTaxItem) :
    Except PayError (List Dec) :=
  let s := c + d + w
  let share := round2 (timesDividedBy item.tax (settledBefore + s) total) -
    round2 (timesDividedBy item.tax settledBefore total)
  if |share| = 0 then .ok [0, 0, 0]
  else do
    let parts ← allocateCents ([c, d, w].map fun x => timesDividedBy x |share| s) |share|
    let sign := if share < 0 then -1 else 1
    return parts.map (· * sign)

variable {total before c d w : Dec} {item : InvoiceTaxItem}

theorem getD_map_mul (parts : List Dec) (x : Dec) (i : ℕ) :
    (parts.map (· * x)).getD i 0 = parts.getD i 0 * x := by
  rw [List.getD_eq_getElem?_getD, List.getElem?_map, List.getD_eq_getElem?_getD]
  cases parts[i]? <;> simp

/-- The shares a settlement reports are the parts of the discount and the write-off. -/
theorem itemShare_eq : itemShare total before c d w item =
    (itemParts total before c d w item).map fun parts => ⟨parts.getD 1 0, parts.getD 2 0⟩ := by
  unfold itemShare itemParts
  simp only []
  split_ifs
  · rfl
  all_goals
    cases allocateCents ([c, d, w].map fun x => timesDividedBy x
      |round2 (timesDividedBy item.tax (before + (c + d + w)) total) -
        round2 (timesDividedBy item.tax before total)| (c + d + w))
      |round2 (timesDividedBy item.tax (before + (c + d + w)) total) -
        round2 (timesDividedBy item.tax before total)| with
    | error e => rfl
    | ok parts =>
      simp only [pure, Except.pure, Except.map, bind, Except.bind, getD_map_mul]

/-- The tax of an item that a settlement of `s` moves, as the running totals round. -/
def taxMoved (total settledBefore s : Dec) (item : InvoiceTaxItem) : Dec :=
  round2 (item.tax * (settledBefore + s) / total) - round2 (item.tax * settledBefore / total)

/-- The running totals are those of the exact quotients. -/
theorem taxMoved_eq {s : Dec} (hs : 0 < s ∧ Cents s) (hroom : HasRoom total before s)
    (hitem : item.Of total) : round2 (timesDividedBy item.tax (before + s) total) -
      round2 (timesDividedBy item.tax before total) = taxMoved total before s item := by
  obtain ⟨⟨hplaces, hlimit⟩, ⟨hbefore, hbeforePlaces⟩, hwithin⟩ := hroom
  have hpos : 0 < total := by linarith [hs.1]
  have hround : ∀ y, 0 ≤ y → y ≤ total → Places 4 y →
      round2 (timesDividedBy item.tax y total) = round2 (item.tax * y / total) := fun y h0 hle hy => by
    refine round2_timesDividedBy hitem.tax.2 hy hplaces hpos ?_
    rw [abs_of_nonneg (mul_nonneg hitem.tax.1 h0)]
    calc item.tax * y ≤ total * total := mul_le_mul hitem.within hle h0 hpos.le
      _ < 10 ^ 15 * 10 ^ 15 := by gcongr
      _ = 10 ^ 30 := by norm_num
  rw [hround _ (add_nonneg hbefore hs.1.le) hwithin (hbeforePlaces.add (hs.2.mono (by norm_num))),
    hround _ hbefore (by linarith [hs.1]) hbeforePlaces]
  rfl

theorem taxMoved_cents (s : Dec) : Cents (taxMoved total before s item) :=
  (Cents.round2 _).sub (Cents.round2 _)

theorem taxMoved_nonneg (htotal : 0 ≤ total) {s : Dec} (hs : 0 ≤ s) (htax : 0 ≤ item.tax) :
    0 ≤ taxMoved total before s item := by
  have hle : item.tax * before / total ≤ item.tax * (before + s) / total := by
    gcongr
    linarith
  exact sub_nonneg.mpr (toPlaces_mono hle)

/-- No more moves than the item's tax. -/
theorem taxMoved_le {s : Dec} (hs : 0 < s) (hbefore : 0 ≤ before) (hwithin : before + s ≤ total)
    (hitem : item.Of total) : taxMoved total before s item ≤ item.tax := by
  have hpos : 0 < total := by linarith
  have hupper : item.tax * (before + s) / total ≤ item.tax := by
    rw [div_le_iff₀ hpos]
    exact mul_le_mul_of_nonneg_left hwithin hitem.tax.1
  have hround : round2 (item.tax * (before + s) / total) ≤ item.tax :=
    (toPlaces_mono hupper).trans (round2_of_cents hitem.tax.2).le
  have hlower : 0 ≤ round2 (item.tax * before / total) :=
    toPlaces_nonneg (div_nonneg (mul_nonneg hitem.tax.1 hbefore) hpos.le)
  exact (sub_le_self _ hlower).trans hround

/-- The whole cents of the part of `x` when `share` is split over `s`. -/
def partCents (s share x : Dec) : Dec := ((⌊timesDividedBy x share s * 100⌋ : ℤ) : Dec)

/-- What whole cents leave of it. -/
def leftOver (s share x : Dec) : Dec := Int.fract (timesDividedBy x share s * 100)

/-- The cents that the whole cents of all three parts leave of `share`. -/
def centsOver (c d w share : Dec) : Dec :=
  share * 100 - (partCents (c + d + w) share c + partCents (c + d + w) share d +
    partCents (c + d + w) share w)

/-- The discount gets one of the cents left over: fewer than these come before it. -/
def DiscountHanded (c d w share : Dec) : Prop :=
  ((if leftOver (c + d + w) share d ≤ leftOver (c + d + w) share c then 1 else 0) +
      if leftOver (c + d + w) share d < leftOver (c + d + w) share w then 1 else 0 : Dec) <
    centsOver c d w share

def WriteOffHanded (c d w share : Dec) : Prop :=
  ((if leftOver (c + d + w) share w ≤ leftOver (c + d + w) share c then 1 else 0) +
      if leftOver (c + d + w) share w ≤ leftOver (c + d + w) share d then 1 else 0 : Dec) <
    centsOver c d w share

instance (c d w share : Dec) : Decidable (DiscountHanded c d w share) :=
  inferInstanceAs (Decidable (_ < _))

instance (c d w share : Dec) : Decidable (WriteOffHanded c d w share) :=
  inferInstanceAs (Decidable (_ < _))

/-- The discount's part of a share in cents, and the write-off's. -/
def discountCents (c d w share : Dec) : Dec :=
  partCents (c + d + w) share d + if DiscountHanded c d w share then 1 else 0

def writeOffCents (c d w share : Dec) : Dec :=
  partCents (c + d + w) share w + if WriteOffHanded c d w share then 1 else 0

theorem ahead_second (a b e : Dec) : (ahead [a, b, e] 1 b : Dec) =
    (if b ≤ a then 1 else 0) + if b < e then 1 else 0 := by
  have ha : (b < a ∨ a = b) ↔ b ≤ a := by rw [le_iff_lt_or_eq, eq_comm (a := b)]
  have : ahead [a, b, e] 1 b = (if b < e then 1 else 0) + if b ≤ a then 1 else 0 := by
    simp [ahead, List.countP_cons, ha]
  rw [this]
  push_cast
  exact add_comm _ _

theorem ahead_third (a b e : Dec) : (ahead [a, b, e] 2 e : Dec) =
    (if e ≤ a then 1 else 0) + if e ≤ b then 1 else 0 := by
  have ha : (e < a ∨ a = e) ↔ e ≤ a := by rw [le_iff_lt_or_eq, eq_comm (a := e)]
  have hb : (e < b ∨ b = e) ↔ e ≤ b := by rw [le_iff_lt_or_eq, eq_comm (a := e)]
  have : ahead [a, b, e] 2 e = (if e ≤ b then 1 else 0) + if e ≤ a then 1 else 0 := by
    simp [ahead, List.countP_cons, ha, hb]
  rw [this]
  push_cast
  exact add_comm _ _

/-- What is split over the parts. -/
structure SplitOver (c d w share : Dec) (parts : List Dec) : Prop where
  sum : parts.sum = share
  discount : parts.getD 1 0 = discountCents c d w share / 100
  writeOff : parts.getD 2 0 = writeOffCents c d w share / 100

theorem splitOver_zero (c d w : Dec) : SplitOver c d w 0 [0, 0, 0] := by
  have hover : centsOver c d w 0 = 0 := by simp [centsOver, partCents]
  have hleft : ∀ x, leftOver (c + d + w) 0 x = 0 := fun x => by simp [leftOver]
  have hd : ¬DiscountHanded c d w 0 := by simp [DiscountHanded, hover, hleft]
  have hw : ¬WriteOffHanded c d w 0 := by simp [WriteOffHanded, hover, hleft]
  exact ⟨by simp, by simp [discountCents, partCents, hd], by simp [writeOffCents, partCents, hw]⟩

/-- A share of whole cents is always split: its parts are off by less than a cent in all. -/
theorem allocate_split {share : Dec} (hok : Settlement.Ok ⟨c, d, w⟩) (hcents : Cents share)
    (hlimit : |share| < 10 ^ 15) :
    ∃ parts, allocateCents ([c, d, w].map fun x => timesDividedBy x share (c + d + w)) share =
      .ok parts ∧ SplitOver c d w share parts := by
  have hsum : [c, d, w].sum = c + d + w := by
    rw [List.sum_cons, List.sum_cons, List.sum_singleton, add_assoc]
  have hnonneg : ∀ x ∈ [c, d, w], 0 ≤ x := by
    simp only [List.mem_cons, List.not_mem_nil, or_false, forall_eq_or_imp, forall_eq]
    exact ⟨hok.cash.1, hok.discount.1, hok.writeOff.1⟩
  have hnear := proportion_near hnonneg (hsum ▸ hok.something.ne') share
  rw [hsum] at hnear
  set shares := [c, d, w].map fun x => timesDividedBy x share (c + d + w) with hshares
  have hclose : |shares.sum - share| < 1 / 100 := by
    refine hnear.trans_lt ?_
    calc |share| * (3 / 10 ^ 39) ≤ 10 ^ 15 * (3 / 10 ^ 39) := by gcongr
      _ < 1 / 100 := by norm_num
  obtain ⟨hparts, htotal⟩ := allocateCents_of_near hcents hclose
  have hrem : remaindersOf shares = [leftOver (c + d + w) share c,
      leftOver (c + d + w) share d, leftOver (c + d + w) share w] := rfl
  have hover : centsLeft shares share = centsOver c d w share := by
    simp only [centsLeft, hshares, List.map_cons, List.map_nil, List.sum_cons, List.sum_nil, centsOver,
      partCents]
    ring
  refine ⟨_, hparts, htotal, ?_, ?_⟩
  · show centShare shares share (timesDividedBy d share (c + d + w), 1) = _
    rw [centShare, hover, hrem]
    show (_ + if (ahead _ 1 (leftOver (c + d + w) share d) : Dec) < _ then 1 else 0) / 100 = _
    rw [ahead_second]
    rfl
  · show centShare shares share (timesDividedBy w share (c + d + w), 2) = _
    rw [centShare, hover, hrem]
    show (_ + if (ahead _ 2 (leftOver (c + d + w) share w) : Dec) < _ then 1 else 0) / 100 = _
    rw [ahead_third]
    rfl

/-- An item's parts. -/
theorem itemParts_split (hok : Settlement.Ok ⟨c, d, w⟩) (hroom : HasRoom total before (c + d + w))
    (hitem : item.Of total) : ∃ parts, itemParts total before c d w item = .ok parts ∧
      SplitOver c d w (taxMoved total before (c + d + w) item) parts := by
  have hs : 0 < c + d + w := hok.something
  have hcents : Cents (c + d + w) := (hok.cash.2.add hok.discount.2).add hok.writeOff.2
  have hpos : 0 ≤ taxMoved total before (c + d + w) item :=
    taxMoved_nonneg (hitem.tax.1.trans hitem.within) hs.le hitem.tax.1
  have hle := taxMoved_le hs hroom.settled.1 hroom.within hitem
  have hlimit : |taxMoved total before (c + d + w) item| < 10 ^ 15 := by
    rw [abs_of_nonneg hpos]
    exact hle.trans_lt (hitem.within.trans_lt hroom.stored.2)
  unfold itemParts
  simp only [taxMoved_eq ⟨hs, hcents⟩ hroom hitem]
  rw [abs_of_nonneg hpos, if_neg (not_lt.mpr hpos)]
  split_ifs with hzero
  · rw [hzero]
    exact ⟨_, rfl, splitOver_zero c d w⟩
  · obtain ⟨parts, hparts, hsplit⟩ := allocate_split hok (taxMoved_cents (c + d + w)) hlimit
    exact ⟨parts.map (· * 1), by rw [hparts]; rfl, by simpa using hsplit⟩

end Parts

/-! ## Settlement after settlement -/

section Run

/-- The parts of an item's tax, settlement by settlement. -/
def runParts (total : Dec) (item : InvoiceTaxItem) : Dec → List Settlement →
    Except PayError (List (List Dec))
  | _, [] => .ok []
  | before, s :: ss => do
    let parts ← itemParts total before s.cash s.discount s.writeOff item
    let rest ← runParts total item (before + s.amount) ss
    return parts :: rest

variable {total : Dec} {item : InvoiceTaxItem}

theorem Settlement.Ok.amountCents {s : Settlement} (h : s.Ok) : Cents s.amount :=
  (h.cash.2.add h.discount.2).add h.writeOff.2

/-- A run's settlements come to nothing or more. -/
theorem amounts_nonneg {ss : List Settlement} (h : ∀ s ∈ ss, s.Ok) :
    0 ≤ (ss.map (·.amount)).sum :=
  List.sum_nonneg (List.forall_mem_map.mpr fun s hs => (h s hs).something.le)

theorem runParts_sum (hitem : item.Of total) : ∀ {ss : List Settlement} {before : Dec},
    (∀ s ∈ ss, s.Ok) → HasRoom total before (ss.map (·.amount)).sum →
    ∃ parts, runParts total item before ss = .ok parts ∧ (parts.map List.sum).sum =
      round2 (item.tax * (before + (ss.map (·.amount)).sum) / total) -
        round2 (item.tax * before / total)
  | [], before, _, _ => ⟨[], rfl, by simp⟩
  | s :: ss, before, h, hroom => by
    obtain ⟨hs, hss⟩ := List.forall_mem_cons.mp h
    have hrest0 := amounts_nonneg hss
    have hwithin := hroom.within
    rw [List.map_cons, List.sum_cons] at hwithin
    have hnow : HasRoom total before (s.cash + s.discount + s.writeOff) :=
      ⟨hroom.stored, hroom.settled, by
        have : s.amount = s.cash + s.discount + s.writeOff := rfl
        linarith⟩
    have hlater : HasRoom total (before + s.amount) (ss.map (·.amount)).sum :=
      ⟨hroom.stored, ⟨add_nonneg hroom.settled.1 hs.something.le,
        hroom.settled.2.add (hs.amountCents.mono (by norm_num))⟩, by linarith⟩
    obtain ⟨parts, hok, hsplit⟩ := itemParts_split hs hnow hitem
    obtain ⟨rest, hrest, hsum⟩ := runParts_sum hitem hss hlater
    refine ⟨parts :: rest, ?_, ?_⟩
    · simp only [runParts, hok, hrest]
      rfl
    · rw [List.map_cons, List.sum_cons, List.map_cons, List.sum_cons, hsum, hsplit.sum, ← add_assoc]
      unfold taxMoved Settlement.amount
      ring

/-- Over a whole invoice an item's parts come to its tax. -/
theorem itemParts_telescopes (hitem : item.Of total) (hlimit : total < 10 ^ 15)
    {ss : List Settlement} (hss : ∀ s ∈ ss, s.Ok) (hfull : (ss.map (·.amount)).sum = total) :
    ∃ parts, runParts total item 0 ss = .ok parts ∧ (parts.map List.sum).sum = item.tax := by
  have htotal := hitem.tax.1.trans hitem.within
  have hplaces : Places 4 total := hfull ▸ Places.sum (List.forall_mem_map.mpr fun s hs =>
    (hss s hs).amountCents.mono (by norm_num))
  obtain ⟨parts, hok, hsum⟩ := @runParts_sum total item hitem ss 0 hss
    ⟨⟨hplaces, hlimit⟩, ⟨le_rfl, Places.zero⟩, by rw [zero_add, hfull]⟩
  refine ⟨parts, hok, ?_⟩
  rw [hsum, zero_add, hfull, mul_zero, zero_div]
  rcases htotal.eq_or_lt with hzero | hpos
  · have : item.tax = 0 := le_antisymm (hitem.within.trans hzero.symm.le) hitem.tax.1
    simp [this]
  · rw [mul_div_assoc, div_self hpos.ne', mul_one, round2_of_cents hitem.tax.2,
      round2_of_cents Places.zero, sub_zero]

end Run

/-! ## The shares of a payment -/

section Shares

variable {total before c d w : Dec} {items : List InvoiceTaxItem}

/-- An item's shares of a settlement. -/
def shareRow (total before c d w : Dec) (item : InvoiceTaxItem) : ShareRow :=
  ⟨discountCents c d w (taxMoved total before (c + d + w) item) / 100,
    writeOffCents c d w (taxMoved total before (c + d + w) item) / 100⟩

theorem itemShares_eq (hok : Settlement.Ok ⟨c, d, w⟩) (hroom : HasRoom total before (c + d + w)) :
    ∀ {items : List InvoiceTaxItem}, (∀ item ∈ items, item.Of total) →
    itemShares total before c d w items = .ok (items.map (shareRow total before c d w))
  | [], _ => rfl
  | item :: items, h => by
    obtain ⟨hitem, hitems⟩ := List.forall_mem_cons.mp h
    obtain ⟨parts, hparts, hsplit⟩ := itemParts_split hok hroom hitem
    have hrow : itemShare total before c d w item = .ok (shareRow total before c d w item) := by
      rw [itemShare_eq, hparts]
      show Except.ok (ShareRow.mk (parts.getD 1 0) (parts.getD 2 0)) = _
      rw [hsplit.discount, hsplit.writeOff]
      rfl
    simp only [itemShares, hrow, itemShares_eq hok hroom hitems]
    rfl

/-- Where the left-over cents have room: what whole cents leave of the discount and the write-off is
as much as the items that hand them one cent more. -/
structure SharesFit (items : List InvoiceTaxItem) (total before c d w : Dec) : Prop where
  discount : ((items.countP fun item =>
      DiscountHanded c d w (taxMoved total before (c + d + w) item) : ℕ) : Dec) ≤
    d * 100 - (items.map fun item =>
      partCents (c + d + w) (taxMoved total before (c + d + w) item) d).sum
  writeOff : ((items.countP fun item =>
      WriteOffHanded c d w (taxMoved total before (c + d + w) item) : ℕ) : Dec) ≤
    w * 100 - (items.map fun item =>
      partCents (c + d + w) (taxMoved total before (c + d + w) item) w).sum

/-- The shares are inside their settlement. -/
structure SettlementShares.Inside (sh : SettlementShares) (d w : Dec) : Prop where
  discount : 0 ≤ sh.discountTax ∧ sh.discountTax ≤ d
  writeOff : 0 ≤ sh.writeOffTax ∧ sh.writeOffTax ≤ w

theorem map_sum_div (f : InvoiceTaxItem → Dec) (items : List InvoiceTaxItem) :
    (items.map fun item => f item / 100).sum = (items.map f).sum / 100 := by
  simp only [div_eq_mul_inv]
  rw [List.sum_map_mul_right]

/-- What the discounts get is their whole cents and those handed over. -/
theorem discountTax_eq : SettlementShares.discountTax (items.map (shareRow total before c d w)) =
    ((items.map fun item =>
      partCents (c + d + w) (taxMoved total before (c + d + w) item) d).sum +
        ((items.countP fun item =>
          DiscountHanded c d w (taxMoved total before (c + d + w) item) : ℕ) : Dec)) / 100 := by
  rw [← sum_map_ite_one, ← List.sum_map_add, ← map_sum_div, SettlementShares.discountTax, List.map_map]
  rfl

theorem writeOffTax_eq : SettlementShares.writeOffTax (items.map (shareRow total before c d w)) =
    ((items.map fun item =>
      partCents (c + d + w) (taxMoved total before (c + d + w) item) w).sum +
        ((items.countP fun item =>
          WriteOffHanded c d w (taxMoved total before (c + d + w) item) : ℕ) : Dec)) / 100 := by
  rw [← sum_map_ite_one, ← List.sum_map_add, ← map_sum_div, SettlementShares.writeOffTax, List.map_map]
  rfl

theorem partCents_nonneg (hs : 0 < c + d + w) (htotal : 0 ≤ total) {x : Dec} (hx : 0 ≤ x)
    (h : ∀ item ∈ items, item.Of total) : 0 ≤ (items.map fun item =>
      partCents (c + d + w) (taxMoved total before (c + d + w) item) x).sum :=
  List.sum_nonneg (List.forall_mem_map.mpr fun item hitem => by
    have hmoved : 0 ≤ taxMoved total before (c + d + w) item :=
      taxMoved_nonneg htotal hs.le (h item hitem).tax.1
    have hpart := timesDividedBy_nonneg hx hmoved hs.le
    have hfloor := Int.floor_nonneg.mpr (mul_nonneg hpart (by norm_num : (0 : Dec) ≤ 100))
    unfold partCents
    exact_mod_cast hfloor)

theorem inside_iff (hs : 0 < c + d + w) (htotal : 0 ≤ total) (hd : 0 ≤ d) (hw : 0 ≤ w)
    (h : ∀ item ∈ items, item.Of total) :
    SettlementShares.Inside (items.map (shareRow total before c d w)) d w ↔
      SharesFit items total before c d w := by
  have hfloorD := @partCents_nonneg total before c d w items hs htotal d hd h
  have hfloorW := @partCents_nonneg total before c d w items hs htotal w hw h
  constructor
  · intro hin
    have h1 := hin.discount.2
    have h2 := hin.writeOff.2
    rw [discountTax_eq] at h1
    rw [writeOffTax_eq] at h2
    exact ⟨by linarith, by linarith⟩
  · intro hfit
    have h1 := hfit.discount
    have h2 := hfit.writeOff
    refine ⟨⟨?_, ?_⟩, ?_, ?_⟩
    · rw [discountTax_eq]
      positivity
    · rw [discountTax_eq]
      linarith
    · rw [writeOffTax_eq]
      positivity
    · rw [writeOffTax_eq]
      linarith

/-- A settlement that an invoice with these tax items can take. -/
structure ValidatedApplication.InRange (items : List InvoiceTaxItem) (a : ValidatedApplication) :
    Prop where
  settles : Settlement.Ok ⟨a.amount, a.discount, a.writeOff⟩
  room : HasRoom a.inv.total a.inv.amountPaid (a.amount + a.discount + a.writeOff)
  taxes : ∀ item ∈ items, 0 ≤ item.tax ∧ Cents item.tax
  inTotal : (items.map (·.tax)).sum ≤ a.inv.total

/-- No item's tax is more than the invoice. -/
theorem ValidatedApplication.InRange.taxItems {a : ValidatedApplication} (h : a.InRange items) :
    ∀ item ∈ items, item.Of a.inv.total := fun item hitem =>
  ⟨h.taxes item hitem, (List.single_le_sum (List.forall_mem_map.mpr fun i hi => (h.taxes i hi).1) _
    (List.mem_map_of_mem hitem)).trans h.inTotal⟩

/-- Only settlements with a discount or a write-off have shares. -/
def ValidatedApplication.Fits (items : List InvoiceTaxItem) (a : ValidatedApplication) : Prop :=
  0 < a.discount ∨ 0 < a.writeOff →
    SharesFit items a.inv.total a.inv.amountPaid a.amount a.discount a.writeOff

theorem shareRow_cents (item : InvoiceTaxItem) : Cents (shareRow total before c d w item).discountTax ∧
    Cents (shareRow total before c d w item).writeOffTax := by
  constructor
  · refine ⟨⌊timesDividedBy d (taxMoved total before (c + d + w) item) (c + d + w) * 100⌋ +
      if DiscountHanded c d w (taxMoved total before (c + d + w) item) then 1 else 0, ?_⟩
    simp only [shareRow, discountCents, partCents]
    push_cast
    ring
  · refine ⟨⌊timesDividedBy w (taxMoved total before (c + d + w) item) (c + d + w) * 100⌋ +
      if WriteOffHanded c d w (taxMoved total before (c + d + w) item) then 1 else 0, ?_⟩
    simp only [shareRow, writeOffCents, partCents]
    push_cast
    ring

/-- The shares of a settlement: always there, in whole cents, inside it where they fit. -/
structure SettlementShares.Of (items : List InvoiceTaxItem) (a : ValidatedApplication)
    (sh : SettlementShares) : Prop where
  inside : sh.Inside a.discount a.writeOff ↔ a.Fits items
  discount : Cents sh.discountTax
  writeOff : Cents sh.writeOffTax

theorem settlementShares_of {a : ValidatedApplication} (h : a.InRange items) :
    ∃ sh, settlementShares items a.inv.total a.inv.amountPaid a.amount a.discount a.writeOff = .ok sh ∧
      sh.Of items a := by
  have hs : 0 < a.amount + a.discount + a.writeOff := h.settles.something
  have htotal : 0 < a.inv.total := by linarith [h.room.settled.1, h.room.within]
  unfold settlementShares
  split_ifs with hnone hno
  · refine ⟨[], rfl, ⟨fun _ hsome => ?_, fun _ => ⟨⟨le_rfl, ?_⟩, le_rfl, ?_⟩⟩, Places.zero, Places.zero⟩
    · exact absurd hsome (not_or.mpr hnone)
    · exact h.settles.discount.1
    · exact h.settles.writeOff.1
  · rcases hno with hno | hno
    · exact absurd hno htotal.ne'
    · exact absurd hs hno
  · have hsome : 0 < a.discount ∨ 0 < a.writeOff := by
      by_contra hno
      exact hnone (not_or.mp hno)
    refine ⟨_, itemShares_eq h.settles h.room h.taxItems, ?_, ?_, ?_⟩
    · rw [inside_iff hs htotal.le h.settles.discount.1 h.settles.writeOff.1 h.taxItems]
      exact ⟨fun hfit _ => hfit, fun hfit => hfit hsome⟩
    · exact Places.sum fun x hx => by
        obtain ⟨row, hrow, rfl⟩ := List.mem_map.mp hx
        obtain ⟨item, -, rfl⟩ := List.mem_map.mp hrow
        exact (shareRow_cents item).1
    · exact Places.sum fun x hx => by
        obtain ⟨row, hrow, rfl⟩ := List.mem_map.mp hx
        obtain ⟨item, -, rfl⟩ := List.mem_map.mp hrow
        exact (shareRow_cents item).2

end Shares

/-! ## The lines -/

section Lines

variable {facts : PaymentFacts} {chart : Chart} {apps : List ValidatedApplication}

/-- The shares of a payment's applications, one by one. -/
theorem sharesOf_ok : ∀ {apps : List ValidatedApplication},
    (∀ a ∈ apps, a.InRange (facts.taxItems a.inv.id)) → ∃ shared, sharesOf facts true apps = .ok shared ∧
      shared.map (·.1) = apps ∧ ∀ a ∈ shared, a.2.Of (facts.taxItems a.1.inv.id) a.1
  | [], _ => ⟨[], rfl, rfl, by simp⟩
  | a :: apps, h => by
    obtain ⟨ha, happs⟩ := List.forall_mem_cons.mp h
    obtain ⟨sh, hsh, hof⟩ := settlementShares_of ha
    obtain ⟨shared, hok, hmap, hall⟩ := sharesOf_ok happs
    refine ⟨(a, sh) :: shared, ?_, by rw [List.map_cons, hmap], List.forall_mem_cons.mpr ⟨hof, hall⟩⟩
    rw [sharesOf, hok]
    split_ifs with hsome
    · rw [hsh]
      rfl
    · rw [settlementShares, if_pos (not_or.mp fun h => hsome ⟨rfl, h⟩)] at hsh
      obtain rfl := Except.ok.inj hsh
      rfl

def LinesBalance (lines : List ArLine) : Prop :=
  (lines.map (·.debit)).sum = (lines.map (·.credit)).sum

/-- What a payment's applications come to. -/
structure Parsed.Pays (parsed : Parsed) (apps : List ValidatedApplication) : Prop where
  amount : 0 ≤ parsed.amount ∧ Cents parsed.amount
  discounts : parsed.discounts = (apps.map (·.discount)).sum
  writeOffs : parsed.writeOffs = (apps.map (·.writeOff)).sum

theorem debitLine_debit {account : Option Id} {x y : Dec} (hx : 0 ≤ x ∧ Cents x) (hxy : x ≤ y)
    (haccount : 0 < y → account.isSome) :
    ((debitLine account x).map (·.debit)).sum = x ∧ ((debitLine account x).map (·.credit)).sum = 0 := by
  unfold debitLine
  rcases account with _ | a
  · have hy : ¬0 < y := fun h => absurd (haccount h) (by simp)
    have : x = 0 := le_antisymm (hxy.trans (not_lt.mp hy)) hx.1
    simp [this]
  · simp only []
    split_ifs with hpos
    · simp [round4_of_cents hx.2]
    · have : x = 0 := le_antisymm (not_lt.mp hpos) hx.1
      simp [this]

theorem stpLine_debit {tax : SettlementTax} (h : 0 ≤ tax.writeOffTax + tax.discountTax)
    (hcents : Cents (tax.writeOffTax + tax.discountTax))
    (hstp : tax.stp = none → tax.writeOffTax + tax.discountTax = 0) :
    ((stpLine tax).map (·.debit)).sum = tax.writeOffTax + tax.discountTax ∧
      ((stpLine tax).map (·.credit)).sum = 0 := by
  unfold stpLine
  rcases hs : tax.stp with _ | stp
  · simp [hstp hs]
  · simp only []
    split_ifs with hpos hneg
    · simp [round4_of_cents hcents]
    · exact absurd hneg (not_lt.mpr h)
    · have : tax.writeOffTax + tax.discountTax = 0 := le_antisymm (not_lt.mp hpos) h
      simp [this]

/-- A payment's tax stays inside what it discounts and writes off. -/
structure SettlementTax.Inside (tax : SettlementTax) (parsed : Parsed) : Prop where
  discount : 0 ≤ tax.discountTax ∧ tax.discountTax ≤ parsed.discounts ∧ Cents tax.discountTax
  writeOff : 0 ≤ tax.writeOffTax ∧ tax.writeOffTax ≤ parsed.writeOffs ∧ Cents tax.writeOffTax
  stp : tax.stp = none → tax.writeOffTax + tax.discountTax = 0

theorem paymentLines_balance {depositTo ar customerId : Id} {parsed : Parsed} {accounts : SettleAccounts}
    {tax : SettlementTax} (hamount : 0 ≤ parsed.amount ∧ Cents parsed.amount)
    (hdiscounts : Cents parsed.discounts) (hwriteOffs : Cents parsed.writeOffs)
    (hdiscount : 0 < parsed.discounts → accounts.discountAccountId.isSome)
    (hwriteOff : 0 < parsed.writeOffs → accounts.writeOffAccountId.isSome) (htax : tax.Inside parsed) :
    LinesBalance (paymentLines depositTo ar customerId parsed accounts tax) := by
  have h1 := @debitLine_debit (some depositTo) _ _ hamount le_rfl fun _ => rfl
  have h2 := debitLine_debit (x := parsed.writeOffs - tax.writeOffTax)
    ⟨sub_nonneg.mpr htax.writeOff.2.1, hwriteOffs.sub htax.writeOff.2.2⟩
    (sub_le_self _ htax.writeOff.1) hwriteOff
  have h3 := debitLine_debit (x := parsed.discounts - tax.discountTax)
    ⟨sub_nonneg.mpr htax.discount.2.1, hdiscounts.sub htax.discount.2.2⟩
    (sub_le_self _ htax.discount.1) hdiscount
  have h4 := stpLine_debit (add_nonneg htax.writeOff.1 htax.discount.1)
    (htax.writeOff.2.2.add htax.discount.2.2) htax.stp
  unfold LinesBalance paymentLines
  simp only [List.map_append, List.sum_append, h1, h2, h3, h4, List.map_cons, List.map_nil,
    List.sum_cons, List.sum_nil,
    round4_of_cents ((hamount.2.add hwriteOffs).add hdiscounts)]
  ring

theorem resolveSettleAccount_some {companyId : Option Id} {depositTo : Id} {total : Dec}
    {requested setting account : Option Id} {requiredCode invalidCode : String}
    (h : resolveSettleAccount chart companyId depositTo total requested setting requiredCode
      invalidCode = .ok account) (htotal : 0 < total) : account.isSome := by
  unfold resolveSettleAccount at h
  rw [if_pos htotal] at h
  split at h
  · cases h
  · obtain ⟨_, -, h⟩ := bind_eq_ok.mp h
    obtain rfl := pure_eq_ok.mp h
    rfl

theorem sum_of_apps {α : Type*} {f : α → Dec} {l : List α} (h : ∀ a ∈ l, Cents (f a)) :
    Cents (l.map f).sum :=
  Places.sum (List.forall_mem_map.mpr h)

/-- What all shares of a payment come to. -/
theorem attachShares_ok {stp : Id} (hstp : chart.system .salesTaxPayable = some stp)
    (h : ∀ a ∈ apps, a.InRange (facts.taxItems a.inv.id)) : ∃ shared tax,
      attachShares chart facts true apps = .ok (shared, tax) ∧ shared.map (·.1) = apps ∧
        (∀ a ∈ shared, a.2.Of (facts.taxItems a.1.inv.id) a.1) ∧
        tax.discountTax = (shared.map fun a => a.2.discountTax).sum ∧
        tax.writeOffTax = (shared.map fun a => a.2.writeOffTax).sum ∧
        (tax.stp = none → tax.writeOffTax + tax.discountTax = 0) := by
  obtain ⟨shared, hok, hmap, hof⟩ := sharesOf_ok h
  unfold attachShares
  rw [hok]
  show ∃ shared' tax, (if (shared.map fun a => a.2.discountTax).sum = 0 ∧
    (shared.map fun a => a.2.writeOffTax).sum = 0 then _ else _) = _ ∧ _
  split_ifs with hnone
  · exact ⟨shared, noSettlementTax, rfl, hmap, hof, hnone.1.symm, hnone.2.symm, fun _ => add_zero 0⟩
  · rw [hstp]
    exact ⟨shared, _, rfl, hmap, hof, rfl, rfl, fun hnot => by cases hnot⟩

/-- A payment's shares are always found, and stay inside its discounts and write-offs, with lines
that balance, just where they fit; over a whole invoice the parts of an item come to its tax. -/
theorem shares_inside_iff {parsed : Parsed} {input : ReceivePaymentInput} {companyId : Option Id}
    {accounts : SettleAccounts} {stp : Id} (ar : Id) (hpays : parsed.Pays apps)
    (happs : ∀ a ∈ apps, a.InRange (facts.taxItems a.inv.id))
    (haccounts : resolveSettleAccounts chart companyId input parsed facts.settings = .ok accounts)
    (hstp : chart.system .salesTaxPayable = some stp) :
    (∃ shared tax, attachShares chart facts true apps = .ok (shared, tax) ∧ shared.map (·.1) = apps ∧
      (((∀ a ∈ shared, a.2.Inside a.1.discount a.1.writeOff) ∧
          LinesBalance (paymentLines input.depositTo ar input.customerId parsed accounts tax)) ↔
        ∀ a ∈ apps, a.Fits (facts.taxItems a.inv.id))) ∧
      ∀ (total : Dec) (item : InvoiceTaxItem) (ss : List Settlement), item.Of total →
        total < 10 ^ 15 → (∀ s ∈ ss, s.Ok) → (ss.map (·.amount)).sum = total →
        ∃ parts, runParts total item 0 ss = .ok parts ∧ (parts.map List.sum).sum = item.tax := by
  refine ⟨?_, fun total item ss hitem hlimit hss hfull => itemParts_telescopes hitem hlimit hss hfull⟩
  obtain ⟨shared, tax, hok, hmap, hof, hdt, hwt, hnone⟩ := attachShares_ok hstp happs
  refine ⟨shared, tax, hok, hmap, fun ⟨hin, _⟩ a ha => ?_, fun hfits => ?_⟩
  · obtain ⟨b, hb, rfl⟩ := List.mem_map.mp (hmap ▸ ha)
    exact (hof b hb).inside.mp (hin b hb)
  · have hin : ∀ a ∈ shared, a.2.Inside a.1.discount a.1.writeOff := fun a ha =>
      (hof a ha).inside.mpr (hfits a.1 (hmap ▸ List.mem_map_of_mem ha))
    refine ⟨hin, ?_⟩
    obtain ⟨writeOff, hw, h⟩ := bind_eq_ok.mp haccounts
    obtain ⟨discount, hd, h⟩ := bind_eq_ok.mp h
    obtain rfl := pure_eq_ok.mp h
    have hdiscounts : parsed.discounts = (shared.map fun a => a.1.discount).sum := by
      rw [hpays.discounts, ← hmap, List.map_map]
      rfl
    have hwriteOffs : parsed.writeOffs = (shared.map fun a => a.1.writeOff).sum := by
      rw [hpays.writeOffs, ← hmap, List.map_map]
      rfl
    refine paymentLines_balance hpays.amount ?_ ?_ (resolveSettleAccount_some hd)
      (resolveSettleAccount_some hw) ⟨⟨?_, ?_, ?_⟩, ⟨?_, ?_, ?_⟩, hnone⟩
    · rw [hpays.discounts]
      exact sum_of_apps fun a ha => (happs a ha).settles.discount.2
    · rw [hpays.writeOffs]
      exact sum_of_apps fun a ha => (happs a ha).settles.writeOff.2
    · rw [hdt]
      exact List.sum_nonneg (List.forall_mem_map.mpr fun a ha => (hin a ha).discount.1)
    · rw [hdt, hdiscounts]
      exact List.sum_le_sum fun a ha => (hin a ha).discount.2
    · rw [hdt]
      exact sum_of_apps fun a ha => (hof a ha).discount
    · rw [hwt]
      exact List.sum_nonneg (List.forall_mem_map.mpr fun a ha => (hin a ha).writeOff.1)
    · rw [hwt, hwriteOffs]
      exact List.sum_le_sum fun a ha => (hin a ha).writeOff.2
    · rw [hwt]
      exact sum_of_apps fun a ha => (hof a ha).writeOff

def taxedAccount (type : AccountType) (tag : Option SystemTag) : LedgerAccount :=
  { accountType := type, detailType := none, systemTag := tag, isActive := true, companyId := none }

/-- Receivables, the tax owed, and one account for discounts and write-offs. -/
def taxedChart : Chart where
  accounts a :=
    if a = "ar" then some (taxedAccount .asset (some .accountsReceivable))
    else if a = "stp" then some (taxedAccount .liability (some .salesTaxPayable))
    else if a = "disc" then some (taxedAccount .revenue none)
    else none
  system
    | .accountsReceivable => some "ar"
    | .salesTaxPayable => some "stp"
    | _ => none
  tagged tag a h := by
    cases tag <;> simp at h <;> subst h <;> simp [taxedAccount]

def taxedFacts (items : List InvoiceTaxItem) : PaymentFacts :=
  ⟨⟨some "disc", some "disc"⟩, true, fun _ => items, fun _ => none, "cd", none⟩

/-- An invoice that had settled `paid` of its `total`. -/
def taxedInvoice (total paid : Dec) : ArTxn :=
  { id := "inv", txnType := .invoice, companyId := none, contactId := some "c", txnDate := "2026-03-02"
    total := total, lines := [], amountPaid := paid }

/-- 98 of cash and 2 of discount, on an invoice of 100 with 8 of tax. -/
def earlyPayment : ValidatedApplication := ⟨taxedInvoice 100 0, 98, 2, 0⟩

def earlyParsed : Parsed := ⟨98, [⟨"inv", 98, 2, 0, none⟩], []⟩

def earlyInput : ReceivePaymentInput :=
  ⟨"c", "2026-03-12", 98, "bank", none, [], none, none, none, false⟩

theorem earlyPayment_inRange : earlyPayment.InRange [⟨8⟩] := by
  have hcents : ∀ n : ℕ, 0 ≤ (n : Dec) ∧ Cents (n : Dec) := fun n =>
    ⟨Nat.cast_nonneg n, by exact_mod_cast Places.intCast (n : ℤ)⟩
  refine ⟨⟨hcents 98, hcents 2, ⟨le_rfl, Places.zero⟩, ?_⟩, ⟨⟨?_, ?_⟩, ⟨le_rfl, Places.zero⟩, ?_⟩, ?_, ?_⟩
  · norm_num [Settlement.amount, earlyPayment]
  · exact_mod_cast Places.intCast (p := 4) 100
  · norm_num [earlyPayment, taxedInvoice]
  · norm_num [earlyPayment, taxedInvoice]
  · intro item hitem
    obtain rfl := List.mem_singleton.mp hitem
    exact hcents 8
  · norm_num [earlyPayment, taxedInvoice]

theorem earlyAccounts : resolveSettleAccounts taxedChart none earlyInput earlyParsed
    (taxedFacts [⟨8⟩]).settings = .ok ⟨none, some "disc"⟩ := by
  have hw : earlyParsed.writeOffs = 0 := by simp [Parsed.writeOffs, earlyParsed]
  have hd : earlyParsed.discounts = 2 := by simp [Parsed.discounts, earlyParsed]
  unfold resolveSettleAccounts resolveSettleAccount
  rw [hw, hd, if_neg (lt_irrefl _), if_pos (by norm_num)]
  rfl

theorem earlyPayment_inside :
    (∃ shared tax, attachShares taxedChart (taxedFacts [⟨8⟩]) true [earlyPayment] = .ok (shared, tax) ∧
      shared.map (·.1) = [earlyPayment] ∧
      (((∀ a ∈ shared, a.2.Inside a.1.discount a.1.writeOff) ∧
          LinesBalance (paymentLines earlyInput.depositTo "ar" earlyInput.customerId earlyParsed
            ⟨none, some "disc"⟩ tax)) ↔
        ∀ a ∈ [earlyPayment], a.Fits ((taxedFacts [⟨8⟩]).taxItems a.inv.id))) ∧
      ∀ (total : Dec) (item : InvoiceTaxItem) (ss : List Settlement), item.Of total →
        total < 10 ^ 15 → (∀ s ∈ ss, s.Ok) → (ss.map (·.amount)).sum = total →
        ∃ parts, runParts total item 0 ss = .ok parts ∧ (parts.map List.sum).sum = item.tax :=
  shares_inside_iff "ar"
    ⟨⟨by norm_num [earlyParsed], by exact_mod_cast Places.intCast 98⟩,
      by simp [Parsed.discounts, earlyParsed, earlyPayment],
      by simp [Parsed.writeOffs, earlyParsed, earlyPayment]⟩
    (fun a ha => by
      obtain rfl := List.mem_singleton.mp ha
      exact earlyPayment_inRange)
    earlyAccounts rfl

/-- Ten items of 0.05: each running total rounds up to its first cent at a tenth of the invoice. -/
def tenTaxes : List InvoiceTaxItem := List.replicate 10 ⟨5 / 100⟩

/-- A cent of discount, on an invoice of 1.00 that had settled 0.09. -/
def smallDiscount : ValidatedApplication := ⟨taxedInvoice 1 (9 / 100), 0, 1 / 100, 0⟩

theorem smallDiscount_outside : smallDiscount.InRange tenTaxes ∧
    ∃ sh, settlementShares tenTaxes 1 (9 / 100) 0 (1 / 100) 0 = .ok sh ∧ sh.discountTax = 1 / 10 ∧
      ¬sh.Inside (1 / 100) 0 ∧
      ¬LinesBalance (paymentLines "bank" "ar" "c" ⟨0, [⟨"inv", 0, 1 / 100, 0, none⟩], []⟩
        ⟨none, some "disc"⟩ ⟨sh.discountTax, sh.writeOffTax, some "stp"⟩) := by
  refine ⟨⟨⟨⟨le_rfl, Places.zero⟩, ⟨by norm_num [smallDiscount], 1, by norm_num [smallDiscount]⟩,
    ⟨le_rfl, Places.zero⟩, by norm_num [smallDiscount, Settlement.amount]⟩,
    ⟨⟨?_, ?_⟩, ⟨?_, 900, ?_⟩, ?_⟩, ?_, ?_⟩, ?_⟩
  · exact_mod_cast Places.intCast (p := 4) 1
  · norm_num [smallDiscount, taxedInvoice]
  · norm_num [smallDiscount, taxedInvoice]
  · norm_num [smallDiscount, taxedInvoice]
  · norm_num [smallDiscount, taxedInvoice]
  · intro item hitem
    obtain rfl := List.eq_of_mem_replicate hitem
    exact ⟨by norm_num, 5, by norm_num⟩
  · norm_num [smallDiscount, taxedInvoice, tenTaxes]
  · have hok : settlementShares tenTaxes 1 (9 / 100) 0 (1 / 100) 0 =
        .ok (List.replicate 10 ⟨1 / 100, 0⟩) := by decide +kernel
    refine ⟨_, hok, by decide +kernel, fun h => ?_, ?_⟩
    · have := h.discount.2
      revert this
      decide +kernel
    · unfold LinesBalance
      decide +kernel

end Lines

end MyBooks
