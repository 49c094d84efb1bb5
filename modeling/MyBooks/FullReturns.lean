import MyBooks.WalkRun

/-!
# What the returns of a sale bring back

Each linked return brings what the units back so far are worth less what came back before, never below
zero. So while the sale's cost stays as it is, what came back is what its units back are worth, or
nothing for a sale whose cost is below zero (`SaleLink.Even`); with every unit back it is the cost.
-/

namespace MyBooks

section Even

/-- What came back of a sale is what its units back are worth. -/
structure SaleLink.Even (sale : SaleLink) : Prop where
  sold : 0 < sale.s
  units : 0 ≤ sale.n
  back : sale.b = max 0 (round2 (sale.r * sale.n / sale.s))

theorem max_round2_step {r s n q : Dec} (hs : 0 < s) (hn : 0 ≤ n) (hq : 0 ≤ q) :
    max (max 0 (round2 (r * n / s))) (round2 (r * (n + q) / s)) = max 0 (round2 (r * (n + q) / s)) := by
  rcases le_total 0 r with hr | hr
  · have hle : r * n / s ≤ r * (n + q) / s := by
      gcongr
      linarith
    have hround : round2 (r * n / s) ≤ round2 (r * (n + q) / s) := toPlaces_mono hle
    rw [max_assoc, max_eq_right hround]
  · have hneg : r * n / s ≤ 0 :=
      div_nonpos_of_nonpos_of_nonneg (mul_nonpos_of_nonpos_of_nonneg hr hn) hs.le
    have hround : round2 (r * n / s) ≤ round2 0 := toPlaces_mono hneg
    rw [round2_of_cents Places.zero] at hround
    rw [max_eq_left hround]

/-- A return of more units keeps the sale even. -/
theorem SaleLink.Even.back_more {sale : SaleLink} (h : sale.Even) {q v : Dec} (hq : 0 < q)
    (hv : linkedValue sale q = .ok v) : ({ sale with n := sale.n + q, b := sale.b + v } : SaleLink).Even := by
  unfold linkedValue at hv
  rw [if_pos h.sold, dividedBy_ok h.sold.ne', ok_bind] at hv
  obtain rfl := pure_eq_ok.mp hv
  refine ⟨h.sold, add_nonneg h.units hq.le, ?_⟩
  simp only []
  rw [← max_round2_step h.sold h.units hq.le, ← h.back, ← max_add_add_left, add_zero, add_sub_cancel]

/-- Every unit back brought the cost, or nothing for a cost below zero. -/
theorem SaleLink.Even.all_back {sale : SaleLink} (h : sale.Even) (hall : sale.n = sale.s)
    (hr : Cents sale.r) : sale.b = max 0 sale.r := by
  rw [h.back, hall, mul_div_assoc, div_self h.sold.ne', mul_one, round2_of_cents hr]

end Even

/-! ## The rows of a walk -/

section Rows

variable {w w' : WalkLoop} {row : WalkRow} {t : Id}

theorem takeBack_of_ne (sales : IdMap SaleLink) {src : Option Id} (qty value : Dec) (h : src ≠ some t) :
    takeBack sales src qty value t = sales t := by
  unfold takeBack
  rcases src with _ | id
  · rfl
  · simp only []
    rcases hs : sales id with _ | sale
    · rfl
    · exact IdMap.set_of_ne _ _ fun heq => h (congrArg some heq.symm)

theorem linkedTo_eq (hm : row.valueMode = .linked) : row.linkedTo = row.sourceId := if_pos hm

/-- A row leaves a sale that it does not link to as it was. -/
theorem rowStep_sales_of_ne {fig : RowFigures} {after : WalkState} {sales : IdMap SaleLink}
    (hlink : row.linkedTo ≠ some t) (h : rowStep w row = .ok (fig, after, sales)) :
    sales t = w.sales t := by
  rcases hfix : row.fixed with _ | ⟨fig', after'⟩
  · rcases rowStep_recomputed hfix h with ⟨-, -, rfl⟩ | ⟨sale, value, hm, -, -, -, rfl⟩
    · rfl
    · exact takeBack_of_ne _ _ _ (linkedTo_eq hm ▸ hlink)
  · unfold rowStep at h
    simp only [hfix, pure_eq_ok, Prod.mk.injEq] at h
    obtain ⟨-, -, rfl⟩ := h
    exact takeBack_of_ne _ _ _ hlink

/-- A row that is not the sale, and no return of it, moves the sale's cost by its share alone. -/
theorem walkRow_other (h : walkRow w row = .ok w') (hreg : row.registers ≠ some t)
    (hlink : row.linkedTo ≠ some t) : ∃ x δ, w'.out = w.out ++ [x] ∧
      w'.sales t = (w.sales t).map (fun sale => { sale with r := sale.r + δ }) ∧
      w'.shares t = (w.shares t).map (· + δ) := by
  obtain ⟨fig, after, sales, short, takes, hstep, -, rfl⟩ := walkRow_eq_ok.mp h
  refine ⟨_, sharesTo takes (some t), rfl, ?_, ?_⟩
  · simp only [attributeSales_apply, registerSale_of_ne hreg, rowStep_sales_of_ne hlink hstep]
  · simp only [attributeShares_apply, registerShare_of_ne hreg]

/-- A return brings its linked value. -/
theorem walkRow_return (h : walkRow w row = .ok w') (hlink : row.linkedTo = some t)
    (hfix : row.fixed = none) (hq : 0 < row.quantity) {sale : SaleLink} (hsale : w.sales t = some sale) :
    ∃ x δ, w'.out = w.out ++ [x] ∧ linkedValue sale row.quantity = .ok x.fig.value ∧
      w'.sales t = some { sale with n := sale.n + row.quantity, b := sale.b + x.fig.value
                                    r := sale.r + δ } ∧
      w'.shares t = (w.shares t).map (· + δ) := by
  obtain ⟨fig, after, sales, short, takes, hstep, -, rfl⟩ := walkRow_eq_ok.mp h
  have hreg : row.registers ≠ some t := by
    rw [WalkRow.registers, if_neg (not_lt.mpr hq.le)]
    intro hnone
    cases hnone
  have hm : row.valueMode = .linked := by
    by_contra hm
    rw [WalkRow.linkedTo, if_neg hm] at hlink
    cases hlink
  rw [linkedTo_eq hm] at hlink
  rcases rowStep_recomputed hfix hstep with ⟨hm', -, -⟩ | ⟨sale', value, -, hbind, hv, hs, rfl⟩
  · exact absurd hm hm'
  · obtain rfl : sale' = sale := by
      rw [hlink, Option.bind_some, hsale] at hbind
      exact (Option.some.inj hbind).symm
    obtain rfl : value = fig.value := pure_eq_ok.mp (stepRow_inv hs).1
    refine ⟨⟨row.id, fig, after⟩, sharesTo takes (some t), rfl, hv, ?_, ?_⟩
    · have hback : takeBack w.sales row.sourceId row.quantity fig.value t =
          some { sale' with n := sale'.n + row.quantity, b := sale'.b + fig.value } := by
        rw [hlink, takeBack, hsale]
        exact IdMap.set_self _ _ _
      simp only [attributeSales_apply, registerSale_of_ne hreg, hback]
      rfl
    · simp only [attributeShares_apply, registerShare_of_ne hreg]

end Rows

/-! ## The returns -/

section Returns

/-- The units of the linked returns of `t`. -/
def returnedUnits (t : Id) (rows : List WalkRow) : Dec :=
  ((rows.filter fun row => row.linkedTo = some t).map (·.quantity)).sum

/-- What the linked returns of `t` brought, the results beside their rows. -/
def returnedValue (t : Id) (rows : List WalkRow) (results : List RowResult) : Dec :=
  (((rows.zip results).filter fun p => p.1.linkedTo = some t).map (·.2.fig.value)).sum

/-- Rows after a sale: returns of it that the walk values, and rows that are not the sale again. -/
def AfterSale (t : Id) (rows : List WalkRow) : Prop :=
  ∀ row ∈ rows, row.registers ≠ some t ∧ (row.linkedTo = some t → row.fixed = none ∧ 0 < row.quantity)

variable {t : Id}

theorem returns_even : ∀ {rows : List WalkRow} {w w' : WalkLoop} {sale : SaleLink} {share : Dec},
    walkRows w rows = .ok w' → AfterSale t rows → w.sales t = some sale → sale.Even →
    (∀ n w₁, walkRows w (rows.take n) = .ok w₁ → w₁.shares t = some share) →
    ∃ xs sale', w'.out = w.out ++ xs ∧ w'.sales t = some sale' ∧ sale'.Even ∧ sale'.r = sale.r ∧
      sale'.s = sale.s ∧ sale'.n = sale.n + returnedUnits t rows ∧
      sale'.b = sale.b + returnedValue t rows xs
  | [], w, w', sale, share, h, _, hsale, heven, _ => by
    obtain rfl := foldlM_nil_ok.mp h
    exact ⟨[], sale, by simp, hsale, heven, rfl, rfl, by simp [returnedUnits], by simp [returnedValue]⟩
  | row :: rows, w, w', sale, share, h, hafter, hsale, heven, hshare => by
    obtain ⟨w₁, h1, h2⟩ := foldlM_cons_ok.mp h
    obtain ⟨⟨hreg, hreturn⟩, hrest⟩ := List.forall_mem_cons.mp hafter
    have hw : w.shares t = some share := hshare 0 w rfl
    have hw₁ : w₁.shares t = some share := hshare 1 w₁ (foldlM_cons_ok.mpr ⟨w₁, h1, rfl⟩)
    have hnext : ∀ n w₂, walkRows w₁ (rows.take n) = .ok w₂ → w₂.shares t = some share := fun n w₂ hn =>
      hshare (n + 1) w₂ (foldlM_cons_ok.mpr ⟨w₁, h1, hn⟩)
    by_cases hlink : row.linkedTo = some t
    · obtain ⟨hfix, hq⟩ := hreturn hlink
      obtain ⟨x, δ, hout, hv, hsale₁, hmoved⟩ := walkRow_return h1 hlink hfix hq hsale
      obtain rfl : δ = 0 := by simpa [hw, hw₁] using hmoved
      rw [add_zero] at hsale₁
      obtain ⟨xs, sale', hxs, hsale', heven', hr, hs, hn, hb⟩ :=
        returns_even h2 hrest hsale₁ (heven.back_more hq hv) hnext
      refine ⟨x :: xs, sale', by rw [hxs, hout, List.append_assoc]; rfl, hsale', heven', hr, hs, ?_, ?_⟩
      · simp [hn, returnedUnits, hlink, add_assoc]
      · simp [hb, returnedValue, hlink, add_assoc]
    · obtain ⟨x, δ, hout, hsale₁, hmoved⟩ := walkRow_other h1 hreg hlink
      obtain rfl : δ = 0 := by simpa [hw, hw₁] using hmoved
      have hsale₁ : w₁.sales t = some sale := by simp [hsale₁, hsale]
      obtain ⟨xs, sale', hxs, hsale', heven', hr, hs, hn, hb⟩ := returns_even h2 hrest hsale₁ heven hnext
      refine ⟨x :: xs, sale', by rw [hxs, hout, List.append_assoc]; rfl, hsale', heven', hr, hs, ?_, ?_⟩
      · simp [hn, returnedUnits, hlink]
      · simp [hb, returnedValue, hlink]

/-- Rows that are not the sale, and no returns of it, move its cost by its shares alone. -/
theorem others_cost : ∀ {rows : List WalkRow} {w w' : WalkLoop}, walkRows w rows = .ok w' →
    (∀ row ∈ rows, row.registers ≠ some t ∧ row.linkedTo ≠ some t) →
    ∃ xs δ, w'.out = w.out ++ xs ∧ xs.length = rows.length ∧
      w'.sales t = (w.sales t).map (fun sale => { sale with r := sale.r + δ }) ∧
      w'.shares t = (w.shares t).map (· + δ)
  | [], w, w', h, _ => by
    obtain rfl := foldlM_nil_ok.mp h
    exact ⟨[], 0, by simp, rfl, by simp, by simp⟩
  | row :: rows, w, w', h, hothers => by
    obtain ⟨w₁, h1, h2⟩ := foldlM_cons_ok.mp h
    obtain ⟨⟨hreg, hlink⟩, hrest⟩ := List.forall_mem_cons.mp hothers
    obtain ⟨x, δ, hout, hsale, hshare⟩ := walkRow_other h1 hreg hlink
    obtain ⟨xs, δ', hxs, hlen, hsale', hshare'⟩ := others_cost h2 hrest
    refine ⟨x :: xs, δ + δ', ?_, by simp [hlen], ?_, ?_⟩
    · rw [hxs, hout, List.append_assoc]
      rfl
    · rw [hsale', hsale, Option.map_map]
      simp only [Function.comp_def, add_assoc]
    · rw [hshare', hshare, Option.map_map]
      simp only [Function.comp_def, add_assoc]

/-- Nothing of the sale has come back. -/
def NoneBack (t : Id) (sales : IdMap SaleLink) : Prop := ∀ sale ∈ sales t, sale.n = 0 ∧ sale.b = 0

theorem registerSale_apply {sales : IdMap SaleLink} {row : WalkRow} {fig : RowFigures}
    (hreg : row.registers = some t) (h : NoneBack t sales) :
    registerSale sales row fig t = some ⟨-fig.value, -row.quantity, 0, 0⟩ := by
  unfold registerSale
  rw [hreg]
  simp only [IdMap.set_self]
  rcases hs : sales t with _ | sale
  · rfl
  · obtain ⟨hn, hb⟩ := h sale hs
    simp [hn, hb]

/-- A sale registers with nothing back, and its cost is its relief and its share. -/
theorem walkRow_sale {w w' : WalkLoop} {row : WalkRow} (h : walkRow w row = .ok w')
    (hreg : row.registers = some t) (hlink : row.linkedTo ≠ some t) (hnone : NoneBack t w.sales) :
    ∃ x δ, w'.out = w.out ++ [x] ∧ w'.sales t = some ⟨-x.fig.value + δ, -row.quantity, 0, 0⟩ ∧
      w'.shares t = some δ := by
  obtain ⟨fig, after, sales, short, takes, hstep, -, rfl⟩ := walkRow_eq_ok.mp h
  have hsales : NoneBack t sales := by
    unfold NoneBack
    rwa [rowStep_sales_of_ne hlink hstep]
  refine ⟨⟨row.id, fig, after⟩, sharesTo takes (some t), rfl, ?_, ?_⟩
  · simp only [attributeSales_apply, registerSale_apply hreg hsales, Option.map_some]
  · have hshare : registerShare w.shares row t = some 0 := by
      unfold registerShare
      rw [hreg]
      exact IdMap.set_self _ _ _
    simp only [attributeShares_apply, hshare, Option.map_some, zero_add]

theorem noneBack_rows : ∀ {rows : List WalkRow} {w w' : WalkLoop}, walkRows w rows = .ok w' →
    (∀ row ∈ rows, row.linkedTo ≠ some t) → NoneBack t w.sales →
    ∃ xs, w'.out = w.out ++ xs ∧ xs.length = rows.length ∧ NoneBack t w'.sales
  | [], w, w', h, _, hnone => by
    obtain rfl := foldlM_nil_ok.mp h
    exact ⟨[], by simp, rfl, hnone⟩
  | row :: rows, w, w', h, hlinks, hnone => by
    obtain ⟨w₁, h1, h2⟩ := foldlM_cons_ok.mp h
    obtain ⟨hlink, hrest⟩ := List.forall_mem_cons.mp hlinks
    obtain ⟨x, hout, hnone₁⟩ : ∃ x, w₁.out = w.out ++ [x] ∧ NoneBack t w₁.sales := by
      by_cases hreg : row.registers = some t
      · obtain ⟨x, δ, hout, hsale, -⟩ := walkRow_sale h1 hreg hlink hnone
        exact ⟨x, hout, fun sale hs => by obtain rfl := Option.some.inj (hsale.symm.trans hs); simp⟩
      · obtain ⟨x, δ, hout, hsale, -⟩ := walkRow_other h1 hreg hlink
        refine ⟨x, hout, fun sale hs => ?_⟩
        rw [hsale] at hs
        obtain ⟨sale₀, hs₀, rfl⟩ := Option.map_eq_some_iff.mp hs
        exact hnone sale₀ hs₀
    obtain ⟨xs, hxs, hlen, hnone'⟩ := noneBack_rows h2 hrest hnone₁
    exact ⟨x :: xs, by rw [hxs, hout, List.append_assoc]; rfl, by simp [hlen], hnone'⟩

end Returns

section Money

/-- Money comes in whole cents: in the values of documents and in the stored figures. -/
def WalkRow.InCents (row : WalkRow) : Prop :=
  (row.valueMode = .given → Cents (row.given.getD 0)) ∧
    ∀ fig after, row.fixed = some (fig, after) → Cents fig.value ∧ Cents after.v

structure LoopCents (w : WalkLoop) : Prop where
  value : Cents w.s.v
  sales : SalesCents w.sales
  shares : ∀ t, ∀ x ∈ w.shares t, Cents x
  out : ∀ x ∈ w.out, Cents x.fig.value

/-- The shares given out so far are whole cents. -/
def Cure.InCents (cure : Cure) : Prop := Cents cure.given ∧ ∀ tk ∈ cure.takes, Cents tk.share

theorem Passed.cents {k c : Dec} {cure cure' : Cure} {es es' : List ShortEntry}
    (h : Passed k c cure es cure' es') (hc : cure.InCents) : cure'.InCents := by
  induction h with
  | nil => exact hc
  | skip _ ih => exact ih hc
  | @took cure cure₁ cure' e e₁ es es' htake _ ih =>
    refine ih ?_
    unfold take at htake
    dsimp only at htake
    split_ifs at htake
    · simp only [bind_eq_ok, pure_eq_ok, Prod.mk.injEq] at htake
      obtain ⟨x, -, rfl, -⟩ := htake
      refine ⟨Cents.round2 x, fun tk htk => ?_⟩
      rcases List.mem_append.mp htk with htk | htk
      · exact hc.2 tk htk
      · rw [List.mem_singleton.mp htk]
        exact (Cents.round2 x).sub hc.1
    · simp only [pure_eq_ok, Prod.mk.injEq] at htake
      exact htake.1 ▸ hc

theorem trackShort_cents {short short' : List ShortEntry} {before : WalkState} {row : WalkRow}
    {fig : RowFigures} {takes : List Taken} (h : trackShort short before row fig = .ok (short', takes)) :
    ∀ tk ∈ takes, Cents tk.share := by
  unfold trackShort at h
  split_ifs at h with h1 h2
  · obtain ⟨-, rfl⟩ := Prod.mk.injEq .. ▸ pure_eq_ok.mp h
    exact fun tk htk => absurd htk List.not_mem_nil
  · obtain ⟨⟨cure, es⟩, hcure, h⟩ := bind_eq_ok.mp h
    obtain ⟨-, rfl⟩ := Prod.mk.injEq .. ▸ pure_eq_ok.mp h
    have hstart : Cure.start.InCents := ⟨Places.zero, fun tk htk => absurd htk List.not_mem_nil⟩
    unfold cureShort at hcure
    split at hcure
    · obtain ⟨⟨cure₁, es₁⟩, hown, hold⟩ := bind_eq_ok.mp hcure
      exact ((takeOldest_passed hold).cents ((takeOwn_passed _ hown).cents hstart)).2
    · exact ((takeOldest_passed hcure).cents hstart).2
  · obtain ⟨-, rfl⟩ := Prod.mk.injEq .. ▸ pure_eq_ok.mp h
    exact fun tk htk => absurd htk List.not_mem_nil

theorem sharesTo_cents {takes : List Taken} (h : ∀ tk ∈ takes, Cents tk.share) (src : Option Id) :
    Cents (sharesTo takes src) :=
  Places.sum (List.forall_mem_map.mpr fun tk htk => h tk (List.mem_filter.mp htk).1)

theorem registerShare_cents {shares : IdMap Dec} (h : ∀ t, ∀ x ∈ shares t, Cents x) (row : WalkRow)
    (t : Id) : ∀ x ∈ registerShare shares row t, Cents x := by
  by_cases hreg : row.registers = some t
  · have hzero : registerShare shares row t = some 0 := by
      unfold registerShare
      rw [hreg]
      exact IdMap.set_self _ _ _
    rw [hzero]
    rintro x ⟨⟩
    exact Places.zero
  · rw [registerShare_of_ne hreg]
    exact h t

theorem walkRow_loopCents {w w' : WalkLoop} {row : WalkRow} (hw : LoopCents w) (hrow : row.InCents)
    (h : walkRow w row = .ok w') : LoopCents w' := by
  obtain ⟨fig, after, sales, short, takes, hstep, htrack, rfl⟩ := walkRow_eq_ok.mp h
  obtain ⟨hvalue, hafter, hsales⟩ : Cents fig.value ∧ Cents after.v ∧ SalesCents sales := by
    rcases hfix : row.fixed with _ | ⟨fig', after'⟩
    · obtain ⟨hcents, hsales⟩ := rowStep_cents hfix hw.value hw.sales hrow.1 hstep
      exact ⟨hcents.value, hcents.after, hsales⟩
    · unfold rowStep at hstep
      simp only [hfix, pure_eq_ok, Prod.mk.injEq] at hstep
      obtain ⟨rfl, rfl, rfl⟩ := hstep
      obtain ⟨hvalue, hafter⟩ := hrow.2 _ _ hfix
      exact ⟨hvalue, hafter, takeBack_cents hw.sales _ _ hvalue⟩
  refine ⟨hafter, attributeSales_cents (registerSale_cents hsales row fig) takes, fun t x hx => ?_,
    fun x hx => ?_⟩
  · obtain ⟨y, hy, rfl⟩ := Option.map_eq_some_iff.mp ((attributeShares_apply takes _ t).symm.trans hx)
    exact (registerShare_cents hw.shares row t y hy).add (sharesTo_cents (trackShort_cents htrack) _)
  · rcases List.mem_append.mp hx with hx | hx
    · exact hw.out x hx
    · rw [List.mem_singleton.mp hx]
      exact hvalue

theorem walkRows_loopCents {rows : List WalkRow} {w w' : WalkLoop} (hw : LoopCents w)
    (hrows : ∀ row ∈ rows, row.InCents) (h : walkRows w rows = .ok w') : LoopCents w' :=
  foldlM_keeps LoopCents (fun row hrow _ _ hc hstep => walkRow_loopCents hc (hrows row hrow) hstep) hw h

end Money

section Full

variable {t : Id} {seed : WalkState} {links : IdMap SaleLink} {pre mid rest : List WalkRow}
  {sale : WalkRow}

/-- The sale `t`, registered once, its returns among the rows `rest`, and every unit of it back. -/
structure AllReturned (t : Id) (links : IdMap SaleLink) (pre : List WalkRow) (sale : WalkRow)
    (mid rest : List WalkRow) : Prop where
  registers : sale.registers = some t
  noneBack : NoneBack t links
  before : ∀ row ∈ pre, row.linkedTo ≠ some t
  apart : sale.linkedTo ≠ some t
  between : ∀ row ∈ mid, row.registers ≠ some t ∧ row.linkedTo ≠ some t
  after : AfterSale t rest
  units : returnedUnits t rest = -sale.quantity

theorem walk_ok {rows : List WalkRow} {r : WalkResult} : walk seed rows links = .ok r ↔
    ∃ w, walkRows (walkStart seed links) rows = .ok w ∧ r = ⟨w.out, w.negative, w.s, w.shares⟩ := by
  unfold walk
  rw [bind_eq_ok]
  exact exists_congr fun w => and_congr_right fun _ => pure_eq_ok.trans eq_comm

/-- Once the share of the sale has come to what it stays at, the returns of all its units bring its
relief and its share, or nothing where these are below zero. -/
theorem full_return (hall : AllReturned t links pre sale mid rest) (hv : Cents seed.v)
    (hl : SalesCents links) (hrows : ∀ row ∈ pre ++ sale :: (mid ++ rest), row.InCents)
    {r r₁ : WalkResult} (h : walk seed (pre ++ sale :: (mid ++ rest)) links = .ok r)
    (h₁ : walk seed (pre ++ sale :: mid) links = .ok r₁)
    (hshare : ∀ n r', walk seed (pre ++ sale :: (mid ++ rest.take n)) links = .ok r' →
      r'.shares t = r₁.shares t) :
    ∃ x share, r.rows[pre.length]? = some x ∧ r₁.shares t = some share ∧
      returnedValue t rest (r.rows.drop (pre.length + 1 + mid.length)) =
        max 0 (-x.fig.value + share) := by
  obtain ⟨w, hw, rfl⟩ := walk_ok.mp h
  obtain ⟨w₁', hw₁', rfl⟩ := walk_ok.mp h₁
  obtain ⟨w₀, hw₀, hw⟩ := foldlM_append_ok.mp hw
  obtain ⟨ws, hws, hw⟩ := foldlM_cons_ok.mp hw
  obtain ⟨w₁, hw₁, hw⟩ := foldlM_append_ok.mp hw
  have hprefix : ∀ {rows : List WalkRow} {w' : WalkLoop}, walkRows w₁ rows = .ok w' →
      walkRows (walkStart seed links) (pre ++ sale :: (mid ++ rows)) = .ok w' := fun hrun =>
    foldlM_append_ok.mpr ⟨w₀, hw₀, foldlM_cons_ok.mpr ⟨ws, hws, foldlM_append_ok.mpr ⟨w₁, hw₁, hrun⟩⟩⟩
  obtain rfl : w₁ = w₁' := by
    have hmid : walkRows (walkStart seed links) (pre ++ sale :: mid) = .ok w₁ :=
      foldlM_append_ok.mpr ⟨w₀, hw₀, foldlM_cons_ok.mpr ⟨ws, hws, hw₁⟩⟩
    exact Except.ok.inj (hmid.symm.trans hw₁')
  have hcents : LoopCents w₁ := by
    refine walkRows_loopCents ?_ (fun row hrow => hrows row ?_) hw₁'
    · exact ⟨hv, hl, nofun, nofun⟩
    · rcases List.mem_append.mp hrow with hrow | hrow
      · exact List.mem_append_left _ hrow
      · refine List.mem_append_right _ ((List.mem_cons.mp hrow).elim (fun h => h ▸ List.mem_cons_self) ?_)
        exact fun h => List.mem_cons_of_mem _ (List.mem_append_left _ h)
  -- the sale and what its cost comes to before its first return
  obtain ⟨xs₀, hout₀, hlen₀, hnone⟩ := noneBack_rows hw₀ hall.before hall.noneBack
  obtain ⟨x, δ, houts, hsale, hδ⟩ := walkRow_sale hws hall.registers hall.apart hnone
  obtain ⟨xs₁, δ', hout₁, hlen₁, hsale₁, hδ'⟩ := others_cost hw₁ hall.between
  rw [hsale, Option.map_some] at hsale₁
  rw [hδ, Option.map_some] at hδ'
  have hout₁ : w₁.out = xs₀ ++ x :: xs₁ := by
    rw [hout₁, houts, hout₀]
    simp [walkStart]
  -- its returns
  have hsold : 0 < -sale.quantity := by
    have hreg := hall.registers
    unfold WalkRow.registers at hreg
    split_ifs at hreg with hneg
    exact neg_pos.mpr hneg
  have heven : ({ r := -x.fig.value + δ + δ', s := -sale.quantity, n := 0, b := 0 } : SaleLink).Even :=
    ⟨hsold, le_rfl, by simp [round2_of_cents Places.zero]⟩
  obtain ⟨xs, sale', hxs, -, heven', hr, hs, hn, hb⟩ := returns_even hw hall.after hsale₁ heven
    fun n w₂ hn => (hshare n _ (walk_ok.mpr ⟨w₂, hprefix hn, rfl⟩)).trans hδ'
  have hcost : Cents sale'.r := by
    rw [hr, add_assoc]
    have hx : x ∈ w₁.out := by simp [hout₁]
    exact (hcents.out x hx).neg.add (hcents.shares t _ hδ')
  have hback := heven'.all_back (by rw [hn, hs, zero_add, hall.units]) hcost
  rw [hb, zero_add, hr, add_assoc] at hback
  refine ⟨x, δ + δ', ?_, hδ', ?_⟩
  · simp [hxs, hout₁, ← hlen₀]
  · have hdrop : w.out.drop (pre.length + 1 + mid.length) = xs := by
      rw [hxs, hout₁]
      exact List.drop_left' (by simp only [List.length_append, List.length_cons, hlen₀, hlen₁]; omega)
    rw [hdrop]
    exact hback

/-- Five units sold below zero, of which the next ten, received at 3.00, cure every one. -/
def soldRow : WalkRow := ⟨"m1", some "inv", "2024-01-02", .sale, -5, .derived, none, none, some 2, none⟩

def receivedRow : WalkRow :=
  ⟨"m2", some "bill", "2024-01-03", .receipt, 10, .given, some 30, none, none, none⟩

/-- The five, two and three at a time. -/
def broughtBack : List WalkRow :=
  [⟨"m3", some "memo1", "2024-01-04", .customerReturn, 2, .linked, none, some "inv", none, none⟩,
   ⟨"m4", some "memo2", "2024-01-05", .customerReturn, 3, .linked, none, some "inv", none, none⟩]

theorem broughtBack_full : ∃ r x share,
    walk zeroState (soldRow :: receivedRow :: broughtBack) noLinks = .ok r ∧
      r.rows[0]? = some x ∧ r.shares "inv" = some share ∧
      returnedValue "inv" broughtBack (r.rows.drop 2) = max 0 (-x.fig.value + share) := by
  have hall : AllReturned "inv" noLinks [] soldRow [receivedRow] broughtBack :=
    ⟨by decide, nofun, by decide, by decide, by decide, by unfold AfterSale; decide +kernel,
      by decide +kernel⟩
  have hok : ∀ n, ∃ r, walk zeroState (soldRow :: receivedRow :: broughtBack.take n) noLinks = .ok r ∧
      r.shares "inv" = some 5 := by
    have hshares : ∀ n, (walk zeroState (soldRow :: receivedRow :: broughtBack.take n)
        noLinks).toOption.bind (fun r => r.shares "inv") = some 5 := by
      rintro (_ | _ | n)
      · decide +kernel
      · decide +kernel
      · rw [List.take_of_length_le (by simp [broughtBack])]
        decide +kernel
    intro n
    have hshare := hshares n
    cases hw : walk zeroState (soldRow :: receivedRow :: broughtBack.take n) noLinks with
    | error e =>
      rw [hw] at hshare
      cases hshare
    | ok r =>
      rw [hw] at hshare
      exact ⟨r, rfl, hshare⟩
  have hrows : ∀ row ∈ [] ++ soldRow :: ([receivedRow] ++ broughtBack), row.InCents := by
    simp only [List.nil_append, List.singleton_append, broughtBack, List.mem_cons, List.not_mem_nil, or_false]
    rintro row (rfl | rfl | rfl | rfl)
    · exact ⟨nofun, nofun⟩
    · exact ⟨fun _ => Places.intCast 30, nofun⟩
    · exact ⟨nofun, nofun⟩
    · exact ⟨nofun, nofun⟩
  obtain ⟨r₁, h₁, hr₁⟩ := hok 0
  obtain ⟨r, h, hr⟩ := hok 2
  obtain ⟨x, share, hx, hshare, hvalue⟩ := full_return hall Places.zero nofun hrows h h₁ fun n r' hn => by
    obtain ⟨r'', h'', hr''⟩ := hok n
    obtain rfl : r' = r'' := Except.ok.inj (hn.symm.trans h'')
    rw [hr'', hr₁]
  exact ⟨r, x, share, h, hx, hr.trans (hr₁.symm.trans hshare), hvalue⟩

/-- Ten units whose value was taken below zero, two of them sold and brought back. -/
def soldBelowZero : List WalkRow :=
  [⟨"m1", some "bill", "2024-01-02", .receipt, 10, .given, some 10, none, none, none⟩,
   ⟨"m2", some "adjust", "2024-01-03", .adjustValue, 0, .given, some (-15), none, none, none⟩]

def saleBelowZero : WalkRow :=
  ⟨"m3", some "inv", "2024-01-04", .sale, -2, .derived, none, none, none, none⟩

def returnBelowZero : WalkRow :=
  ⟨"m4", some "memo", "2024-01-05", .customerReturn, 2, .linked, none, some "inv", none, none⟩

/-- The sale cost -1.00, and all of it back brings 0.00. -/
theorem saleBelowZero_brings_nothing :
    AllReturned "inv" noLinks soldBelowZero saleBelowZero [] [returnBelowZero] ∧
      ∃ r x share, walk zeroState (soldBelowZero ++ saleBelowZero :: [returnBelowZero]) noLinks = .ok r ∧
        r.rows[2]? = some x ∧ r.shares "inv" = some share ∧ -x.fig.value + share = -1 ∧
          returnedValue "inv" [returnBelowZero] (r.rows.drop 3) = 0 := by
  refine ⟨⟨by decide, nofun, by decide, by decide, by decide, by unfold AfterSale; decide +kernel,
    by decide +kernel⟩, ?_⟩
  have hrun : (walk zeroState (soldBelowZero ++ saleBelowZero :: [returnBelowZero]) noLinks).toOption.map
      (fun r => (r.rows.map (·.fig.value), r.shares "inv")) = some ([10, -15, 1, 0], some 0) := by
    decide +kernel
  cases hw : walk zeroState (soldBelowZero ++ saleBelowZero :: [returnBelowZero]) noLinks with
  | error e =>
    rw [hw] at hrun
    cases hrun
  | ok r =>
    rw [hw] at hrun
    obtain ⟨hvalues, hshare⟩ := Prod.mk.inj (Option.some.inj hrun)
    rcases hr : r.rows with _ | ⟨x₀, _ | ⟨x₁, _ | ⟨x₂, _ | ⟨x₃, _ | ⟨x₄, xs⟩⟩⟩⟩⟩ <;>
      simp only [hr, List.map_cons, List.map_nil, List.cons.injEq, reduceCtorEq, and_false]
        at hvalues
    obtain ⟨-, -, h₂, h₃, -⟩ := hvalues
    refine ⟨r, x₂, 0, rfl, by rw [hr]; rfl, hshare, by rw [h₂, add_zero], ?_⟩
    rw [hr]
    simp [returnedValue, returnBelowZero, WalkRow.linkedTo, h₃]

end Full

end MyBooks
