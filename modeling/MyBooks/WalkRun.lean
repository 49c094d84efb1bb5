import MyBooks.Shortage

/-!
# What a whole walk keeps

A walk whose linked returns name known sales never fails, and its rows conserve quantity and value
(`walk_conserves`). A walk that starts at zero or above keeps its queue of short units exact, and
each inflow that cures short units gives out exactly its correction (`walk_cures`).
-/

namespace MyBooks

section Sales

/-- The linked returns so far brought back whole cents. -/
def SalesCents (sales : IdMap SaleLink) : Prop := ∀ t sale, sales t = some sale → Cents sale.b

variable {sales : IdMap SaleLink}

theorem SalesCents.set (h : SalesCents sales) (t : Id) {sale : SaleLink} (hs : Cents sale.b) :
    SalesCents (sales.set t sale) := by
  intro t' sale' ht'
  by_cases htt : t' = t
  · subst htt
    rw [IdMap.set_self, Option.some.injEq] at ht'
    rwa [← ht']
  · rw [IdMap.set_of_ne _ _ htt] at ht'
    exact h t' sale' ht'

theorem IdMap.isSome_set {β : Type} (m : IdMap β) (k k' : Id) (b : β) :
    (m.set k b k').isSome ↔ (m k').isSome ∨ k' = k := by
  by_cases h : k' = k
  · simp [h]
  · simp [IdMap.set_of_ne, h]

/-- A key that is there already is no new key. -/
theorem IdMap.isSome_set_of_mem {β : Type} {m : IdMap β} {k : Id} {a : β} (h : m k = some a)
    (b : β) (k' : Id) : (m.set k b k').isSome ↔ (m k').isSome := by
  rw [IdMap.isSome_set]
  exact ⟨fun h' => h'.elim id fun hk => by simp [hk, h], Or.inl⟩

theorem takeBack_isSome (src : Option Id) (qty value : Dec) (t : Id) :
    (takeBack sales src qty value t).isSome ↔ (sales t).isSome := by
  rcases src with _ | id
  · exact Iff.rfl
  · unfold takeBack
    rcases hs : sales id with _ | sale
    · simp [hs]
    · simpa only [hs] using IdMap.isSome_set_of_mem hs _ t

theorem takeBack_cents (h : SalesCents sales) (src : Option Id) (qty : Dec) {value : Dec}
    (hv : Cents value) : SalesCents (takeBack sales src qty value) := by
  rcases src with _ | id
  · exact h
  · unfold takeBack
    rcases hs : sales id with _ | sale
    · simpa only [hs] using h
    · simpa only [hs] using h.set _ ((h _ _ hs).add hv)

/-- A take changes the cost of its own sale at most. -/
theorem attributeSale_eq (sales : IdMap SaleLink) (tk : Taken) :
    (attributeSale sales tk = sales ∧ ∀ id, tk.saleId = some id → sales id = none ∨ tk.share = 0) ∨
      ∃ id sale, tk.saleId = some id ∧ sales id = some sale ∧
        attributeSale sales tk = sales.set id { sale with r := sale.r + tk.share } := by
  unfold attributeSale
  rcases ht : tk.saleId with _ | id
  · exact Or.inl ⟨rfl, by simp⟩
  · rcases hs : sales id with _ | sale
    · exact Or.inl (by simp [hs])
    · by_cases h0 : tk.share = 0
      · exact Or.inl (by simp [hs, h0])
      · exact Or.inr ⟨id, sale, rfl, hs, by simp [hs, h0]⟩

theorem attributeSale_isSome (tk : Taken) (t : Id) :
    (attributeSale sales tk t).isSome ↔ (sales t).isSome := by
  rcases attributeSale_eq sales tk with ⟨h, -⟩ | ⟨id, sale, -, hs, h⟩
  · rw [h]
  · rw [h, IdMap.isSome_set_of_mem hs]

theorem attributeSale_cents (h : SalesCents sales) (tk : Taken) :
    SalesCents (attributeSale sales tk) := by
  rcases attributeSale_eq sales tk with ⟨h', -⟩ | ⟨id, sale, -, hs, h'⟩
  · rwa [h']
  · rw [h']
    exact h.set _ (h id sale hs :)

theorem attributeSales_isSome (takes : List Taken) (t : Id) :
    (takes.foldl attributeSale sales t).isSome ↔ (sales t).isSome := by
  induction takes generalizing sales with
  | nil => exact Iff.rfl
  | cons tk takes ih => exact ih.trans (attributeSale_isSome tk t)

theorem attributeSales_cents (h : SalesCents sales) (takes : List Taken) :
    SalesCents (takes.foldl attributeSale sales) := by
  induction takes generalizing sales with
  | nil => exact h
  | cons tk takes ih => exact ih (attributeSale_cents h tk)

theorem registerSale_isSome (row : WalkRow) (fig : RowFigures) (t : Id) :
    (registerSale sales row fig t).isSome ↔ (sales t).isSome ∨ row.registers = some t := by
  unfold registerSale
  rcases h : row.registers with _ | t'
  · simp
  · simp only [IdMap.isSome_set, Option.some.injEq, eq_comm (a := t)]

theorem registerSale_of_ne {row : WalkRow} {fig : RowFigures} {t : Id}
    (h : row.registers ≠ some t) : registerSale sales row fig t = sales t := by
  unfold registerSale
  rcases hr : row.registers with _ | t'
  · rfl
  · exact IdMap.set_of_ne _ _ fun htt => h (by rw [hr, htt])

theorem registerSale_cents (h : SalesCents sales) (row : WalkRow) (fig : RowFigures) :
    SalesCents (registerSale sales row fig) := by
  unfold registerSale
  split
  · exact h
  · rename_i t _
    refine h.set _ ?_
    rcases hp : sales t with _ | prev
    · simp
    · simpa using h _ _ hp

end Sales

section Row

variable {w w' : WalkLoop} {row : WalkRow}

theorem walkRow_eq_ok : walkRow w row = .ok w' ↔
    ∃ fig after sales short takes, rowStep w row = .ok (fig, after, sales) ∧
      trackShort w.short w.s row fig = .ok (short, takes) ∧
      w' = {
        s := after
        sales := takes.foldl attributeSale (registerSale sales row fig)
        shares := takes.foldl attributeShare (registerShare w.shares row)
        short := short
        negative :=
          if w.negative = none ∧ 0 ≤ w.s.q ∧ after.q < 0 then some ⟨row.id, row.date, after.q⟩
          else w.negative
        out := w.out ++ [⟨row.id, fig, after⟩] } := by
  simp only [walkRow, bind_eq_ok, pure_eq_ok, Prod.exists]
  constructor
  · rintro ⟨fig, after, sales, h1, short, takes, h2, h3⟩
    exact ⟨fig, after, sales, short, takes, h1, h2, h3.symm⟩
  · rintro ⟨fig, after, sales, short, takes, h1, h2, h3⟩
    exact ⟨fig, after, sales, h1, short, takes, h2, h3.symm⟩

/-- A recomputed row is a `stepRow`, with the sale's value where it is a linked return. -/
theorem rowStep_recomputed {fig : RowFigures} {after : WalkState} {sales : IdMap SaleLink}
    (hfix : row.fixed = none) (h : rowStep w row = .ok (fig, after, sales)) :
    (row.valueMode ≠ .linked ∧ stepRow w.s row = .ok (fig, after) ∧ sales = w.sales) ∨
      ∃ sale value, row.valueMode = .linked ∧ row.sourceId.bind w.sales = some sale ∧
        linkedValue sale row.quantity = .ok value ∧
        stepRow w.s { row with valueMode := .given, given := some value } = .ok (fig, after) ∧
        sales = takeBack w.sales row.sourceId row.quantity value := by
  unfold rowStep at h
  rw [hfix] at h
  dsimp only at h
  split_ifs at h with hm
  · split at h
    · cases h
    · rename_i sale hsale
      simp only [bind_eq_ok, pure_eq_ok, Prod.exists, Prod.mk.injEq] at h
      obtain ⟨value, hv, fig', after', hs, rfl, rfl, rfl⟩ := h
      exact Or.inr ⟨sale, value, hm, hsale, hv, hs, rfl⟩
  · simp only [bind_eq_ok, pure_eq_ok, Prod.exists, Prod.mk.injEq] at h
    obtain ⟨fig', after', hs, rfl, rfl, rfl⟩ := h
    exact Or.inl ⟨hm, hs, rfl⟩

theorem linkedValue_total (sale : SaleLink) (q : Dec) : ∃ v, linkedValue sale q = .ok v := by
  unfold linkedValue
  split_ifs with h
  · simp [dividedBy_ok h.ne']
  · exact ⟨0, rfl⟩

theorem linkedValue_cents {sale : SaleLink} {q v : Dec} (hb : Cents sale.b)
    (h : linkedValue sale q = .ok v) : Cents v := by
  unfold linkedValue at h
  split_ifs at h
  · obtain ⟨x, -, h⟩ := bind_eq_ok.mp h
    rw [← pure_eq_ok.mp h]
    exact Places.zero.max ((Cents.round2 x).sub hb)
  · rw [← pure_eq_ok.mp h]
    exact Places.zero

theorem rowStep_total (hfix : row.fixed = none)
    (hknown : row.valueMode = .linked → ∃ t, row.sourceId = some t ∧ (w.sales t).isSome) :
    ∃ r, rowStep w row = .ok r := by
  unfold rowStep
  rw [hfix]
  dsimp only
  split_ifs with hm
  · obtain ⟨t, ht, hsome⟩ := hknown hm
    obtain ⟨sale, hsale⟩ := Option.isSome_iff_exists.mp hsome
    have hbind : row.sourceId.bind w.sales = some sale := by rw [ht, Option.bind_some, hsale]
    obtain ⟨value, hv⟩ := linkedValue_total sale row.quantity
    simp only [hbind, hv, ok_bind]
    obtain ⟨⟨fig, after⟩, hs⟩ := stepRow_total w.s
      ⟨row.id, row.transactionId, row.date, row.kind, row.quantity, .given, some value,
        row.sourceId, row.fallbackCost, none⟩
    rw [hs]
    exact ⟨_, rfl⟩
  · obtain ⟨⟨fig, after⟩, hs⟩ := stepRow_total w.s row
    rw [hs]
    exact ⟨_, rfl⟩

theorem rowStep_spec {fig : RowFigures} {after : WalkState} {sales : IdMap SaleLink}
    (hfix : row.fixed = none) (h : rowStep w row = .ok (fig, after, sales)) :
    RowSpec w.s row fig after := by
  rcases rowStep_recomputed hfix h with ⟨-, hs, -⟩ | ⟨_, _, -, -, -, hs, -⟩
  · exact stepRow_spec hs
  · obtain ⟨h1, h2, h3, h4, h5⟩ := stepRow_spec hs
    exact ⟨h1, h2, h3, h4, h5⟩

theorem rowStep_isSome {fig : RowFigures} {after : WalkState} {sales : IdMap SaleLink}
    (h : rowStep w row = .ok (fig, after, sales)) (t : Id) :
    (sales t).isSome ↔ (w.sales t).isSome := by
  rcases hfix : row.fixed with _ | ⟨fig', after'⟩
  · rcases rowStep_recomputed hfix h with ⟨-, -, rfl⟩ | ⟨_, _, -, -, -, -, rfl⟩
    · exact Iff.rfl
    · exact takeBack_isSome _ _ _ t
  · unfold rowStep at h
    simp only [hfix, pure_eq_ok, Prod.mk.injEq] at h
    obtain ⟨-, -, rfl⟩ := h
    exact takeBack_isSome _ _ _ t

/-- A sale is known after a row when it was before, or when the row is that sale. -/
theorem walkRow_isSome (h : walkRow w row = .ok w') (t : Id) :
    (w'.sales t).isSome ↔ (w.sales t).isSome ∨ row.registers = some t := by
  obtain ⟨fig, after, sales, short, takes, hstep, -, rfl⟩ := walkRow_eq_ok.mp h
  rw [attributeSales_isSome, registerSale_isSome, rowStep_isSome hstep]

theorem rowStep_cents {fig : RowFigures} {after : WalkState} {sales : IdMap SaleLink}
    (hfix : row.fixed = none) (hs : Cents w.s.v) (hsales : SalesCents w.sales)
    (hg : row.valueMode = .given → Cents (row.given.getD 0))
    (h : rowStep w row = .ok (fig, after, sales)) : RowCents fig after ∧ SalesCents sales := by
  rcases rowStep_recomputed hfix h with ⟨-, hs', rfl⟩ | ⟨sale, value, -, hsale, hv, hs', rfl⟩
  · exact ⟨stepRow_cents hs hg hs', hsales⟩
  · obtain ⟨t, -, ht⟩ := Option.bind_eq_some_iff.mp hsale
    have hval := linkedValue_cents (hsales t sale ht) hv
    exact ⟨stepRow_cents hs (fun _ => by simpa using hval) hs', takeBack_cents hsales _ _ hval⟩

/-- The correction of a recomputed row is in whole cents whatever the state. -/
theorem rowStep_correction_cents {fig : RowFigures} {after : WalkState} {sales : IdMap SaleLink}
    (hfix : row.fixed = none) (h : rowStep w row = .ok (fig, after, sales)) :
    Cents fig.correction := by
  rcases rowStep_recomputed hfix h with ⟨-, hs, -⟩ | ⟨_, _, -, -, -, hs, -⟩
  · exact rowCorrection_cents (stepRow_inv hs).2.1
  · exact rowCorrection_cents (stepRow_inv hs).2.1

end Row

section Conserve

/-- Each result is what its row does to the state the result before it left. -/
def Chained : WalkState → List WalkRow → List RowResult → Prop
  | _, [], xs => xs = []
  | _, _ :: _, [] => False
  | s, row :: rows, x :: xs =>
    x.id = row.id ∧ RowSpec s row x.fig x.after ∧ Chained x.after rows xs

/-- Each linked return names a sale that is known: in `known`, or an earlier row. -/
def LinksKnown : (Id → Prop) → List WalkRow → Prop
  | _, [] => True
  | known, row :: rows =>
    (row.valueMode = .linked → ∃ t, row.sourceId = some t ∧ known t) ∧
      LinksKnown (fun t => known t ∨ row.registers = some t) rows

theorem LinksKnown.congr {known known' : Id → Prop} (h : ∀ t, known t ↔ known' t)
    {rows : List WalkRow} (hk : LinksKnown known rows) : LinksKnown known' rows := by
  have : known = known' := funext fun t => propext (h t)
  rwa [← this]

theorem walkRow_total {w : WalkLoop} {row : WalkRow} (hfix : row.fixed = none)
    (hknown : row.valueMode = .linked → ∃ t, row.sourceId = some t ∧ (w.sales t).isSome) :
    ∃ w', walkRow w row = .ok w' := by
  obtain ⟨⟨fig, after, sales⟩, h1⟩ := rowStep_total hfix hknown
  obtain ⟨⟨short, takes⟩, h2⟩ := trackShort_total w.short w.s row fig
  exact ⟨_, walkRow_eq_ok.mpr ⟨fig, after, sales, short, takes, h1, h2, rfl⟩⟩

/-- A walk of recomputed rows with known sales runs to its end, row after row. -/
theorem walkRows_chained : ∀ (rows : List WalkRow) (w : WalkLoop),
    (∀ row ∈ rows, row.fixed = none) → LinksKnown (fun t => (w.sales t).isSome) rows →
      ∃ w' xs, walkRows w rows = .ok w' ∧ w'.out = w.out ++ xs ∧ Chained w.s rows xs ∧
        w'.s.q = w.s.q + (rows.map (·.quantity)).sum ∧
        w'.s.v = w.s.v +
          (xs.map fun x => x.fig.value + x.fig.correction + x.fig.residual).sum
  | [], w, _, _ => ⟨w, [], rfl, by simp, rfl, by simp, by simp⟩
  | row :: rows, w, hfix, hknown => by
    have hfix₁ := hfix row List.mem_cons_self
    obtain ⟨w₁, h1⟩ := walkRow_total hfix₁ hknown.1
    obtain ⟨fig, after, sales, short, takes, hstep, -, hw₁⟩ := walkRow_eq_ok.mp h1
    have hspec := rowStep_spec hfix₁ hstep
    have hknown₁ : LinksKnown (fun t => (w₁.sales t).isSome) rows :=
      hknown.2.congr fun t => (walkRow_isSome h1 t).symm
    obtain ⟨w', xs, h2, h3, h4, h5, h6⟩ := walkRows_chained rows w₁
      (fun r hr => hfix r (List.mem_cons_of_mem _ hr)) hknown₁
    rw [hw₁] at h3 h4 h5 h6
    refine ⟨w', ⟨row.id, fig, after⟩ :: xs, ?_, ?_, ⟨rfl, hspec, h4⟩, ?_, ?_⟩
    · exact foldlM_cons_ok.mpr ⟨w₁, h1, h2⟩
    · rw [h3, List.append_assoc, List.singleton_append]
    · rw [h5, hspec.onHand, List.map_cons, List.sum_cons, add_assoc]
    · rw [h6, hspec.value, List.map_cons, List.sum_cons, add_assoc]

/-- In whole cents a walk stays in whole cents. -/
theorem walkRows_cents : ∀ (rows : List WalkRow) (w w' : WalkLoop),
    (∀ row ∈ rows, row.fixed = none) → Cents w.s.v → SalesCents w.sales →
      (∀ row ∈ rows, row.valueMode = .given → Cents (row.given.getD 0)) →
      (∀ x ∈ w.out, RowCents x.fig x.after) → walkRows w rows = .ok w' →
      ∀ x ∈ w'.out, RowCents x.fig x.after
  | [], w, w', _, _, _, _, hout, h => by rwa [← foldlM_nil_ok.mp h]
  | row :: rows, w, w', hfix, hv, hsales, hg, hout, h => by
    obtain ⟨w₁, h1, h2⟩ := foldlM_cons_ok.mp h
    obtain ⟨fig, after, sales, short, takes, hstep, -, rfl⟩ := walkRow_eq_ok.mp h1
    obtain ⟨hcents, hsales₁⟩ := rowStep_cents (hfix row List.mem_cons_self) hv hsales
      (hg row List.mem_cons_self) hstep
    refine walkRows_cents rows _ w' (fun r hr => hfix r (List.mem_cons_of_mem _ hr))
      hcents.after (attributeSales_cents (registerSale_cents hsales₁ row fig) takes)
      (fun r hr => hg r (List.mem_cons_of_mem _ hr)) (fun x hx => ?_) h2
    rcases List.mem_append.mp hx with hx | hx
    · exact hout x hx
    · rw [List.mem_singleton.mp hx]
      exact hcents

theorem walk_conserves (seed : WalkState) (links : IdMap SaleLink) (rows : List WalkRow)
    (hfix : ∀ row ∈ rows, row.fixed = none)
    (hknown : LinksKnown (fun t => (links t).isSome) rows) :
    ∃ r, walk seed rows links = .ok r ∧
      r.final.q = seed.q + (rows.map (·.quantity)).sum ∧
      r.final.v = seed.v +
        (r.rows.map fun x => x.fig.value + x.fig.correction + x.fig.residual).sum ∧
      Chained seed rows r.rows ∧
      (Cents seed.v → (∀ row ∈ rows, row.valueMode = .given → Cents (row.given.getD 0)) →
        SalesCents links → ∀ x ∈ r.rows, RowCents x.fig x.after) := by
  obtain ⟨w, xs, h1, h2, h3, h4, h5⟩ :=
    walkRows_chained rows (walkStart seed links) hfix hknown
  have hout : w.out = xs := h2
  refine ⟨⟨w.out, w.negative, w.s, w.shares⟩, by rw [walk, h1]; rfl, h4, ?_, ?_, ?_⟩
  · rw [h5, hout]
    rfl
  · rw [hout]
    exact h3
  · intro hv hg hl
    exact walkRows_cents rows _ w hfix hv hl hg (by simp [walkStart]) h1

/-- Five units sold below zero, ten received at 3.00, two of the five brought back. -/
def soldShort : List WalkRow :=
  [⟨"m1", some "inv", "2024-01-02", .sale, -5, .derived, none, none, some 2, none⟩,
   ⟨"m2", some "bill", "2024-01-03", .receipt, 10, .given, some 30, none, none, none⟩,
   ⟨"m3", some "memo", "2024-01-04", .customerReturn, 2, .linked, none, some "inv", none, none⟩]

theorem soldShort_conserves : ∃ r, walk zeroState soldShort noLinks = .ok r ∧
    r.final.q = 7 ∧ Chained zeroState soldShort r.rows ∧
      ∀ x ∈ r.rows, RowCents x.fig x.after := by
  have hsum : zeroState.q + (soldShort.map (·.quantity)).sum = 7 := by decide +kernel
  obtain ⟨r, h1, h2, -, h4, h5⟩ := walk_conserves zeroState noLinks soldShort (by decide)
    (by simp [LinksKnown, soldShort, WalkRow.registers, WalkRow.saleId, noLinks])
  refine ⟨r, h1, h2.trans hsum, h4, h5 Places.zero ?_ ?_⟩
  · simp only [soldShort, List.mem_cons, List.not_mem_nil, or_false]
    rintro row (rfl | rfl | rfl) hm
    · cases hm
    · exact Places.intCast 30
    · cases hm
  · intro t sale hs
    cases hs

/-- A sale of three units outside the walk, whose returns so far brought a tenth of a cent. -/
def millLink : IdMap SaleLink := noLinks.set "inv" ⟨10, 3, 0, 1 / 1000⟩

def millReturn : List WalkRow :=
  [⟨"m1", some "memo", "2024-01-04", .customerReturn, 1, .linked, none, some "inv", none, none⟩]

/-- What a link says came back is taken off unrounded: the next return is worth 3.329. -/
theorem millReturn_not_cents :
    (∀ row ∈ millReturn, row.fixed = none) ∧
      LinksKnown (fun t => (millLink t).isSome) millReturn ∧ Cents zeroState.v ∧
      (∀ row ∈ millReturn, row.valueMode = .given → Cents (row.given.getD 0)) ∧
      ∃ r, walk zeroState millReturn millLink = .ok r ∧
        r.rows.map (·.fig.value) = [3.329] ∧ ¬ ∀ x ∈ r.rows, RowCents x.fig x.after := by
  refine ⟨by decide, by simp [LinksKnown, millReturn, millLink], Places.zero,
    by simp [millReturn], ?_⟩
  have hrun : (walk zeroState millReturn millLink).map (fun r => r.rows.map (·.fig.value)) =
      .ok [3.329] := by
    decide +kernel
  rcases hw : walk zeroState millReturn millLink with e | r
  · rw [hw] at hrun
    cases hrun
  · rw [hw] at hrun
    have hvalues : r.rows.map (·.fig.value) = [3.329] := Except.ok.inj hrun
    refine ⟨r, rfl, hvalues, fun hcents => ?_⟩
    obtain ⟨x, hx, hvalue⟩ : ∃ x ∈ r.rows, x.fig.value = 3.329 :=
      List.mem_map.mp (hvalues ▸ List.mem_singleton_self _)
    have hround := round2_of_cents (hvalue ▸ (hcents x hx).value)
    exact absurd hround (by decide +kernel)

end Conserve

section Cures

/-- The part of the correction that the takes give to the entries of `src`. -/
def sharesTo (takes : List Taken) (src : Option Id) : Dec :=
  ((takes.filter (·.saleId = src)).map (·.share)).sum

/-- The part of the correction that the takes give to sales. -/
def sharesToSales (takes : List Taken) : Dec :=
  ((takes.filter (·.saleId ≠ none)).map (·.share)).sum

theorem sharesToSales_add (takes : List Taken) :
    sharesToSales takes + sharesTo takes none = (takes.map (·.share)).sum := by
  induction takes with
  | nil => simp [sharesToSales, sharesTo]
  | cons tk takes ih =>
    rw [List.map_cons, List.sum_cons, ← ih]
    by_cases h : tk.saleId = none
    · simp [sharesToSales, sharesTo, h]
      ring
    · simp [sharesToSales, sharesTo, h]
      ring

theorem sharesTo_cons (tk : Taken) (takes : List Taken) (src : Option Id) :
    sharesTo (tk :: takes) src = (if tk.saleId = src then tk.share else 0) + sharesTo takes src := by
  by_cases h : tk.saleId = src <;> simp [sharesTo, h]

/-- What no take belongs to gets no share. -/
theorem sharesTo_eq_zero {takes : List Taken} {src : Option Id}
    (h : ∀ tk ∈ takes, tk.saleId ≠ src) : sharesTo takes src = 0 := by
  induction takes with
  | nil => rfl
  | cons tk takes ih =>
    rw [sharesTo_cons, if_neg (h tk List.mem_cons_self), zero_add,
      ih fun tk' htk' => h tk' (List.mem_cons_of_mem _ htk')]

/-- Each share is added to the sale it belongs to, and to no other. -/
theorem attributeShares_apply (takes : List Taken) (shares : IdMap Dec) (t : Id) :
    takes.foldl attributeShare shares t =
      (shares t).map fun x => x + sharesTo takes (some t) := by
  induction takes generalizing shares with
  | nil => simp [sharesTo]
  | cons tk takes ih =>
    have hstep : attributeShare shares tk t = if tk.saleId = some t then
        (shares t).map fun x => x + tk.share else shares t := by
      unfold attributeShare
      rcases tk.saleId with _ | id
      · rfl
      · by_cases hid : id = t
        · subst hid
          rcases hs : shares id with _ | x <;> by_cases h0 : tk.share = 0 <;> simp [hs, h0]
        · rcases hs : shares id with _ | x <;> by_cases h0 : tk.share = 0 <;>
            simp [hs, h0, hid, IdMap.set_of_ne _ _ (Ne.symm hid)]
    rw [List.foldl_cons, ih, hstep, sharesTo_cons]
    by_cases h : tk.saleId = some t
    · simp only [h, if_true, Option.map_map, Function.comp_def, add_assoc]
    · simp [h]

/-- The cost of a sale moves by its shares, and nothing else of it does. -/
theorem attributeSales_apply (takes : List Taken) (sales : IdMap SaleLink) (t : Id) :
    takes.foldl attributeSale sales t =
      (sales t).map fun sale => { sale with r := sale.r + sharesTo takes (some t) } := by
  induction takes generalizing sales with
  | nil => simp [sharesTo]
  | cons tk takes ih =>
    have hstep : attributeSale sales tk t = if tk.saleId = some t then
        (sales t).map fun sale => { sale with r := sale.r + tk.share } else sales t := by
      rcases attributeSale_eq sales tk with ⟨h, h0⟩ | ⟨id, sale, hid, hs, h⟩
      · rw [h]
        split_ifs with ht
        · rcases h0 t ht with h0 | h0 <;> simp [h0]
        · rfl
      · rw [h, hid]
        split_ifs with ht
        · obtain rfl := Option.some.inj ht
          simp [hs]
        · exact IdMap.set_of_ne _ _ fun hne => ht (by rw [hne])
    rw [List.foldl_cons, ih, hstep, sharesTo_cons]
    by_cases h : tk.saleId = some t
    · simp only [h, if_true, Option.map_map, Function.comp_def, add_assoc]
    · simp [h]

/-- A replayed row follows on from the quantity before it, and its correction is whole cents. -/
def FixedOk : Dec → List WalkRow → Prop
  | _, [] => True
  | q, row :: rows =>
    (∀ fig after, row.fixed = some (fig, after) →
      after.q = q + row.quantity ∧ Cents fig.correction) ∧ FixedOk (q + row.quantity) rows

/-- Between rows the queue is exact, and the walk keeps a share for each sale in it. -/
structure LoopOk (w : WalkLoop) : Prop where
  short : ShortOk w.s.q w.short
  known : ∀ e ∈ w.short, ∀ t, e.saleId = some t → (w.shares t).isSome

/-- What a row does to the queue and to the costs of the sales in it. -/
structure RowCures (w w' : WalkLoop) (row : WalkRow) (fig : RowFigures) (takes : List Taken) :
    Prop where
  out : w'.out = w.out ++ [⟨row.id, fig, w'.s⟩]
  onHand : w'.s.q = w.s.q + row.quantity
  units : unitsOf w'.short = max (-w'.s.q) 0
  empty : 0 ≤ w'.s.q → w'.short = []
  track : trackShort w.short w.s row fig = .ok (w'.short, takes)
  cures : 0 < row.quantity → w.s.q < 0 →
    CuresExactly (min row.quantity (-w.s.q)) (-fig.correction) w.short takes ∧
      sharesToSales takes + sharesTo takes none = -fig.correction
  calm : ¬(0 < row.quantity ∧ w.s.q < 0) → takes = []
  known : ∀ tk ∈ takes, ∀ t, tk.saleId = some t → (w.shares t).isSome
  shares : ∀ t, w'.shares t =
    (registerShare w.shares row t).map fun x => x + sharesTo takes (some t)
  cost : row.registers = none → ∀ t,
    (w'.sales t).map (·.r) = (w.sales t).map (·.r + sharesTo takes (some t))

/-- A sale that no unit in the queue belongs to gets no share. -/
theorem RowCures.sharesTo_eq_zero {w w' : WalkLoop} {row : WalkRow} {fig : RowFigures}
    {takes : List Taken} (h : RowCures w w' row fig takes) {t : Id}
    (hq : ∀ e ∈ w.short, e.saleId ≠ some t) : sharesTo takes (some t) = 0 := by
  refine MyBooks.sharesTo_eq_zero fun tk htk hid => ?_
  by_cases hcure : 0 < row.quantity ∧ w.s.q < 0
  · obtain ⟨e, he, hte⟩ := (h.cures hcure.1 hcure.2).1.queued tk htk
    exact hq e he (hte.symm.trans hid)
  · rw [h.calm hcure] at htk
    cases htk

theorem walkStart_loopOk {seed : WalkState} (hq : 0 ≤ seed.q) (links : IdMap SaleLink) :
    LoopOk (walkStart seed links) := by
  have h : (walkStart seed links).short = [] := if_neg (by linarith)
  refine ⟨⟨?_, ?_⟩, ?_⟩
  · rw [h, unitsOf_nil]
    exact (max_eq_right (neg_nonpos.mpr hq)).symm
  · simp [h]
  · simp [h]

/-- A row's value and the units it brings back leave the cost of every sale alone. -/
theorem rowStep_cost {w : WalkLoop} {row : WalkRow} {fig : RowFigures} {after : WalkState}
    {sales : IdMap SaleLink} (h : rowStep w row = .ok (fig, after, sales)) (t : Id) :
    (sales t).map (·.r) = (w.sales t).map (·.r) := by
  have hback : ∀ src qty value, (takeBack w.sales src qty value t).map (·.r) =
      (w.sales t).map (·.r) := by
    intro src qty value
    rcases src with _ | id
    · rfl
    · unfold takeBack
      rcases hs : w.sales id with _ | sale
      · simp [hs]
      · by_cases hid : t = id
        · subst hid
          simp [hs]
        · simp [hs, IdMap.set_of_ne _ _ hid]
  rcases hfix : row.fixed with _ | ⟨fig', after'⟩
  · rcases rowStep_recomputed hfix h with ⟨-, -, rfl⟩ | ⟨_, _, -, -, -, -, rfl⟩
    · rfl
    · exact hback _ _ _
  · unfold rowStep at h
    simp only [hfix, pure_eq_ok, Prod.mk.injEq] at h
    obtain ⟨-, -, rfl⟩ := h
    exact hback _ _ _

theorem registerShare_of_ne {shares : IdMap Dec} {row : WalkRow} {t : Id}
    (h : row.registers ≠ some t) : registerShare shares row t = shares t := by
  unfold registerShare
  rcases hr : row.registers with _ | t'
  · rfl
  · exact IdMap.set_of_ne _ _ fun htt => h (by rw [hr, htt])

theorem registerShare_isSome (shares : IdMap Dec) (row : WalkRow) (t : Id) :
    (registerShare shares row t).isSome ↔ (shares t).isSome ∨ row.registers = some t := by
  unfold registerShare
  rcases h : row.registers with _ | t'
  · simp
  · simp only [IdMap.isSome_set, Option.some.injEq, eq_comm (a := t)]

/-- A row's correction is whole cents, and the row moves on hand by its quantity. -/
theorem walkRow_onHand {w : WalkLoop} {row : WalkRow} {fig : RowFigures} {after : WalkState}
    {sales : IdMap SaleLink}
    (hfix : ∀ fig after, row.fixed = some (fig, after) →
      after.q = w.s.q + row.quantity ∧ Cents fig.correction)
    (hstep : rowStep w row = .ok (fig, after, sales)) :
    after.q = w.s.q + row.quantity ∧ Cents fig.correction := by
  rcases hf : row.fixed with _ | ⟨fig', after'⟩
  · exact ⟨(rowStep_spec hf hstep).onHand, rowStep_correction_cents hf hstep⟩
  · unfold rowStep at hstep
    simp only [hf, pure_eq_ok, Prod.mk.injEq] at hstep
    obtain ⟨rfl, rfl, -⟩ := hstep
    exact hfix _ _ hf

theorem walkRow_cures {w w' : WalkLoop} {row : WalkRow} (hw : LoopOk w)
    (hfix : ∀ fig after, row.fixed = some (fig, after) →
      after.q = w.s.q + row.quantity ∧ Cents fig.correction)
    (h : walkRow w row = .ok w') :
    LoopOk w' ∧ ∃ fig takes, RowCures w w' row fig takes ∧
      ∀ e ∈ w'.short, (∃ e₀ ∈ w.short, e.saleId = e₀.saleId) ∨ row.registers = e.saleId := by
  obtain ⟨fig, after, sales, short, takes, hstep, htrack, rfl⟩ := walkRow_eq_ok.mp h
  obtain ⟨hq, hc⟩ := walkRow_onHand hfix hstep
  obtain ⟨hshort, hcures, hcalm, hfrom⟩ := trackShort_cures hw.short hc htrack
  have hfrom' : ∀ e ∈ short,
      (∃ e₀ ∈ w.short, e.saleId = e₀.saleId) ∨ row.registers = e.saleId := by
    intro e he
    rcases hfrom e he with h₀ | ⟨hneg, hid⟩
    · exact Or.inl h₀
    · exact Or.inr (by rw [WalkRow.registers, if_pos hneg, hid])
  refine ⟨⟨hq ▸ hshort, ?_⟩, fig, takes, ⟨rfl, hq, hq ▸ hshort.units,
    fun h0 => hshort.eq_nil (hq ▸ h0), htrack, ?_, hcalm, ?_,
    fun t => attributeShares_apply takes _ t, ?_⟩, hfrom'⟩
  · intro e he t ht
    dsimp only
    rw [attributeShares_apply, Option.isSome_map, registerShare_isSome]
    rcases hfrom' e he with ⟨e₀, he₀, h₀⟩ | hreg
    · exact Or.inl (hw.known e₀ he₀ t (h₀.symm.trans ht))
    · exact Or.inr (hreg.trans ht)
  · intro hpos hneg
    have hexact := hcures hpos hneg
    exact ⟨hexact, (sharesToSales_add takes).trans hexact.shares⟩
  · intro tk htk t ht
    by_cases hcure : 0 < row.quantity ∧ w.s.q < 0
    · obtain ⟨e, he, hid⟩ := (hcures hcure.1 hcure.2).queued tk htk
      exact hw.known e he t (hid.symm.trans ht)
    · rw [hcalm hcure] at htk
      cases htk
  · intro hreg t
    have hcost := rowStep_cost hstep t
    dsimp only
    rw [attributeSales_apply, registerSale, hreg, Option.map_map]
    calc (sales t).map (fun sale => sale.r + sharesTo takes (some t))
        = ((sales t).map (·.r)).map (· + sharesTo takes (some t)) := by rw [Option.map_map]; rfl
      _ = ((w.sales t).map (·.r)).map (· + sharesTo takes (some t)) := by rw [hcost]
      _ = (w.sales t).map (·.r + sharesTo takes (some t)) := by rw [Option.map_map]; rfl

/-- A walk keeps a share for a sale when it did before, or when one of its rows is that sale. -/
theorem walkRows_share_isSome : ∀ (rows : List WalkRow) {w w' : WalkLoop},
    walkRows w rows = .ok w' → ∀ t,
      ((w'.shares t).isSome ↔ (w.shares t).isSome ∨ ∃ row ∈ rows, row.registers = some t)
  | [], w, w', h, t => by rw [foldlM_nil_ok.mp h]; simp
  | row :: rows, w, w', h, t => by
    obtain ⟨w₁, h1, h2⟩ := foldlM_cons_ok.mp h
    obtain ⟨fig, after, sales, short, takes, -, -, rfl⟩ := walkRow_eq_ok.mp h1
    rw [walkRows_share_isSome rows h2 t]
    dsimp only
    rw [attributeShares_apply, Option.isSome_map, registerShare_isSome]
    simp [or_assoc]

/-- A share moves only while units of its sale are in the queue. -/
theorem walkRows_share : ∀ (rows : List WalkRow) {w w' : WalkLoop} {t : Id}, LoopOk w →
    FixedOk w.s.q rows → (∀ e ∈ w.short, e.saleId ≠ some t) →
    (∀ row ∈ rows, row.registers ≠ some t) → walkRows w rows = .ok w' → w'.shares t = w.shares t
  | [], w, w', t, _, _, _, _, h => by rw [foldlM_nil_ok.mp h]
  | row :: rows, w, w', t, hw, hfix, hq, hreg, h => by
    obtain ⟨w₁, h1, h2⟩ := foldlM_cons_ok.mp h
    obtain ⟨hw₁, fig, takes, hcures, hfrom⟩ := walkRow_cures hw hfix.1 h1
    have hreg₁ := hreg row List.mem_cons_self
    rw [walkRows_share rows hw₁ (hcures.onHand ▸ hfix.2) ?_
      (fun r hr => hreg r (List.mem_cons_of_mem _ hr)) h2, hcures.shares,
      hcures.sharesTo_eq_zero hq, registerShare_of_ne hreg₁]
    · simp
    · intro e he ht
      rcases hfrom e he with ⟨e₀, he₀, h₀⟩ | h₀
      · exact hq e₀ he₀ (h₀.symm.trans ht)
      · exact hreg₁ (h₀.trans ht)

/-- The rows of a walk from zero or above, one after the other. -/
theorem walkRows_cures : ∀ (rows : List WalkRow) (w w' : WalkLoop), LoopOk w →
    FixedOk w.s.q rows → walkRows w rows = .ok w' →
    ∀ pre row post, rows = pre ++ row :: post →
      ∃ w₁ w₂ fig takes, walkRows w pre = .ok w₁ ∧ walkRow w₁ row = .ok w₂ ∧
        RowCures w₁ w₂ row fig takes
  | [], w, w', _, _, _, pre, row, post, hsplit => by simp at hsplit
  | r :: rows, w, w', hw, hfix, h, pre, row, post, hsplit => by
    obtain ⟨w₁, h1, h2⟩ := foldlM_cons_ok.mp h
    obtain ⟨hw₁, fig, takes, hcures, -⟩ := walkRow_cures hw hfix.1 h1
    rcases pre with _ | ⟨p, pre⟩
    · obtain ⟨rfl, -⟩ := List.cons.inj hsplit
      exact ⟨w, w₁, fig, takes, rfl, h1, hcures⟩
    · obtain ⟨rfl, hrest⟩ := List.cons.inj hsplit
      obtain ⟨w₂, w₃, fig', takes', h3, h4⟩ := walkRows_cures rows w₁ w' hw₁
        (hcures.onHand ▸ hfix.2) h2 pre row post hrest
      exact ⟨w₂, w₃, fig', takes', foldlM_cons_ok.mpr ⟨w₁, h1, h3⟩, h4⟩

theorem walk_cures (seed : WalkState) (links : IdMap SaleLink) (rows : List WalkRow)
    (r : WalkResult) (hq : 0 ≤ seed.q) (hfix : FixedOk seed.q rows)
    (h : walk seed rows links = .ok r) :
    ∀ pre row post, rows = pre ++ row :: post →
      ∃ w w' fig takes, walkRows (walkStart seed links) pre = .ok w ∧ walkRow w row = .ok w' ∧
        RowCures w w' row fig takes := by
  obtain ⟨w, h1, -⟩ := bind_eq_ok.mp h
  exact walkRows_cures rows _ w (walkStart_loopOk hq links) hfix h1

/-- The five units sold below zero, with the sale replayed as it is stored. -/
def soldReplayed : List WalkRow :=
  ⟨"m1", some "inv", "2024-01-02", .sale, -5, .derived, none, none, some 2,
    some (⟨-10, 0, 0⟩, ⟨-5, -10, 0⟩)⟩ :: soldShort.drop 1

theorem soldShort_cures : ∃ w w' fig takes,
    walkRows (walkStart zeroState noLinks) (soldReplayed.take 1) = .ok w ∧
      RowCures w w' ⟨"m2", some "bill", "2024-01-03", .receipt, 10, .given, some 30, none, none,
        none⟩ fig takes := by
  have hrun : (walk zeroState soldReplayed noLinks).map (·.final) = .ok ⟨7, 21, 3⟩ := by
    decide +kernel
  have hfixed : FixedOk zeroState.q soldReplayed := by
    refine ⟨fun fig after hfix => ?_, by simp [FixedOk, soldShort]⟩
    obtain ⟨rfl, rfl⟩ := Prod.mk.inj (Option.some.inj hfix)
    exact ⟨by decide +kernel, Places.zero⟩
  rcases hw : walk zeroState soldReplayed noLinks with e | r
  · rw [hw] at hrun
    cases hrun
  · obtain ⟨w, w', fig, takes, h1, -, h3⟩ := walk_cures zeroState noLinks soldReplayed r le_rfl
      hfixed hw (soldReplayed.take 1) _ (soldReplayed.drop 2) rfl
    exact ⟨w, w', fig, takes, h1, h3⟩

/-- A replayed row of no units whose stored on hand is five below zero. -/
def jumpedRow : WalkRow :=
  ⟨"m1", some "adjust", "2024-01-02", .adjustValue, 0, .derived, none, none, none,
    some (⟨0, 0, 0⟩, ⟨-5, 0, 0⟩)⟩

/-- A replayed inflow of all five units sold, stored with a correction of a tenth of a cent. -/
def millCorrection : WalkRow :=
  ⟨"m2", some "bill", "2024-01-03", .receipt, 5, .given, some 10, none, none,
    some (⟨10, -1 / 1000, 0⟩, ⟨0, 0, 2⟩)⟩

/-- Replayed rows are taken as they are stored: one that jumps below zero leaves nobody the units
it is short of, and of a correction below a cent nothing is attributed. -/
theorem replayed_not_cured :
    (walkRows (walkStart zeroState noLinks) [jumpedRow]).map (fun w => (w.s.q, unitsOf w.short)) =
        .ok (-5, 0) ∧
      ∃ w short takes, walkRows (walkStart zeroState noLinks) (soldShort.take 1) = .ok w ∧
        w.s.q + millCorrection.quantity = 0 ∧
        trackShort w.short w.s millCorrection ⟨10, -1 / 1000, 0⟩ = .ok (short, takes) ∧
        sharesToSales takes + sharesTo takes none = 0 := by
  refine ⟨by decide +kernel, ?_⟩
  have hrun : (walkRows (walkStart zeroState noLinks) (soldShort.take 1)).map
      (fun w => (w.s, w.short)) = .ok (⟨-5, -10, 0⟩, [⟨some "inv", 5⟩]) := by
    decide +kernel
  rcases hw : walkRows (walkStart zeroState noLinks) (soldShort.take 1) with e | w
  · rw [hw] at hrun
    cases hrun
  · rw [hw] at hrun
    obtain ⟨hs, hshort⟩ := Prod.mk.inj (Except.ok.inj hrun)
    refine ⟨w, [], [⟨some "inv", 5, 5, 0⟩], rfl, ?_, ?_, by decide +kernel⟩
    · rw [hs]
      decide +kernel
    · rw [hs, hshort]
      decide +kernel

end Cures

end MyBooks
