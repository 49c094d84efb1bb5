import MyBooks.WalkRun

/-!
# A walk seeded in the middle follows the full walk

`Follows` relates the loop of a full walk to the loop of a walk that was seeded later: the same
running state and queue, and what the seeded loop knows of a sale is what the full loop knows of
it. A recomputed row keeps it (`walkRows_follows`), and so does a row the full walk recomputes and
the seeded walk replays with the figures the full walk gives it (`replay_follows`).
-/

namespace MyBooks

/-- What `m` knows `m'` knows too. -/
def IdMap.Sub {β : Type} (m m' : IdMap β) : Prop := ∀ t x, m t = some x → m' t = some x

section Sub

theorem IdMap.Sub.set {β : Type} {m m' : IdMap β} (h : m.Sub m') (t : Id) (x : β) :
    (m.set t x).Sub (m'.set t x) := by
  intro t' x' ht'
  by_cases htt : t' = t
  · subst htt
    rw [IdMap.set_self] at ht' ⊢
    exact ht'
  · rw [IdMap.set_of_ne _ _ htt] at ht' ⊢
    exact h t' x' ht'

/-- A key that `m` does not know may change in `m'`. -/
theorem IdMap.Sub.set_right {β : Type} {m m' : IdMap β} (h : m.Sub m') {t : Id} (ht : m t = none)
    (x : β) : m.Sub (m'.set t x) := by
  intro t' x' ht'
  have htt : t' ≠ t := fun hne => by rw [hne, ht] at ht'; cases ht'
  rw [IdMap.set_of_ne _ _ htt]
  exact h t' x' ht'

theorem IdMap.Sub.eq_none {β : Type} {m m' : IdMap β} (h : m.Sub m') {t : Id} (ht : m' t = none) :
    m t = none := by
  rcases hm : m t with _ | x
  · rfl
  · rw [h t x hm] at ht
    cases ht

variable {S S' : IdMap SaleLink} {D D' : IdMap Dec}

theorem takeBack_sub (h : S.Sub S') (src : Option Id) (qty value : Dec) :
    (takeBack S src qty value).Sub (takeBack S' src qty value) := by
  rcases src with _ | id
  · exact h
  · unfold takeBack
    rcases hs : S id with _ | sale
    · rcases hs' : S' id with _ | sale'
      · simpa only [hs, hs'] using h
      · simpa only [hs, hs'] using h.set_right hs _
    · have hs' := h id sale hs
      simpa only [hs, hs'] using h.set id _

theorem registerSale_sub (h : S.Sub S') {row : WalkRow} (fig : RowFigures)
    (hfresh : ∀ t, row.registers = some t → S' t = none) :
    (registerSale S row fig).Sub (registerSale S' row fig) := by
  unfold registerSale
  rcases hr : row.registers with _ | t
  · exact h
  · simp only [hfresh t hr, h.eq_none (hfresh t hr)]
    exact h.set t _

theorem registerShare_sub (h : D.Sub D') (row : WalkRow) :
    (registerShare D row).Sub (registerShare D' row) := by
  unfold registerShare
  rcases row.registers with _ | t
  · exact h
  · exact h.set t 0

theorem attributeSale_sub (h : S.Sub S') (tk : Taken) :
    (attributeSale S tk).Sub (attributeSale S' tk) := by
  unfold attributeSale
  rcases tk.saleId with _ | id
  · exact h
  · by_cases h0 : tk.share = 0
    · rcases hs : S id with _ | sale <;> rcases hs' : S' id with _ | sale' <;>
        simpa only [hs, hs', h0, if_true] using h
    · rcases hs : S id with _ | sale
      · rcases hs' : S' id with _ | sale'
        · simpa only [hs, hs'] using h
        · simpa only [hs, hs', h0, if_false] using h.set_right hs _
      · have hs' := h id sale hs
        simpa only [hs, hs', h0, if_false] using h.set id _

theorem attributeShare_sub (h : D.Sub D') (tk : Taken) :
    (attributeShare D tk).Sub (attributeShare D' tk) := by
  unfold attributeShare
  rcases tk.saleId with _ | id
  · exact h
  · by_cases h0 : tk.share = 0
    · rcases hs : D id with _ | x <;> rcases hs' : D' id with _ | x' <;>
        simpa only [hs, hs', h0, if_true] using h
    · rcases hs : D id with _ | x
      · rcases hs' : D' id with _ | x'
        · simpa only [hs, hs'] using h
        · simpa only [hs, hs', h0, if_false] using h.set_right hs _
      · have hs' := h id x hs
        simpa only [hs, hs', h0, if_false] using h.set id _

theorem attributeSales_sub (takes : List Taken) (h : S.Sub S') :
    (takes.foldl attributeSale S).Sub (takes.foldl attributeSale S') := by
  induction takes generalizing S S' with
  | nil => exact h
  | cons tk takes ih => exact ih (attributeSale_sub h tk)

theorem attributeShares_sub (takes : List Taken) (h : D.Sub D') :
    (takes.foldl attributeShare D).Sub (takes.foldl attributeShare D') := by
  induction takes generalizing D D' with
  | nil => exact h
  | cons tk takes ih => exact ih (attributeShare_sub h tk)

end Sub

/-- The seeded loop `w` at the place the full loop `f` is, past the results `done`. -/
structure Follows (done : List RowResult) (f w : WalkLoop) : Prop where
  state : w.s = f.s
  short : w.short = f.short
  sales : w.sales.Sub f.sales
  shares : w.shares.Sub f.shares
  out : f.out = done ++ w.out

/-- No row registers a sale that is there already. -/
def SalesFresh : (Id → Prop) → List WalkRow → Prop
  | _, [] => True
  | known, row :: rows =>
    (∀ t, row.registers = some t → ¬known t) ∧
      SalesFresh (fun t => known t ∨ row.registers = some t) rows

theorem SalesFresh.congr {known known' : Id → Prop} (h : ∀ t, known t ↔ known' t)
    {rows : List WalkRow} (hk : SalesFresh known rows) : SalesFresh known' rows := by
  have : known = known' := funext fun t => propext (h t)
  rwa [← this]

section Step

variable {done : List RowResult} {f f' w : WalkLoop} {row : WalkRow}

/-- When both loops give the row the same figures, they stay together: what follows reads nothing
of the row that a replayed row does not have. -/
theorem Follows.walkRow (h : Follows done f w) {o : Option (RowFigures × WalkState)}
    {fig : RowFigures} {after : WalkState} {sales sales' : IdMap SaleLink}
    {short : List ShortEntry} {takes : List Taken}
    (hstep : rowStep w { row with fixed := o } = .ok (fig, after, sales'))
    (htrack : trackShort f.short f.s row fig = .ok (short, takes)) (hsub : sales'.Sub sales)
    (hfresh : ∀ t, row.registers = some t → sales t = none)
    (hf' : f' = {
        s := after
        sales := takes.foldl attributeSale (registerSale sales row fig)
        shares := takes.foldl attributeShare (registerShare f.shares row)
        short := short
        negative :=
          if f.negative = none ∧ 0 ≤ f.s.q ∧ after.q < 0 then some ⟨row.id, row.date, after.q⟩
          else f.negative
        out := f.out ++ [⟨row.id, fig, after⟩] }) :
    ∃ w', walkRow w { row with fixed := o } = .ok w' ∧ Follows done f' w' := by
  have htrack' : trackShort w.short w.s { row with fixed := o } fig = .ok (short, takes) := by
    rw [h.short, h.state]
    exact htrack
  refine ⟨_, walkRow_eq_ok.mpr ⟨fig, after, sales', short, takes, hstep, htrack', rfl⟩, ?_⟩
  subst hf'
  exact ⟨rfl, rfl, attributeSales_sub takes (registerSale_sub hsub fig hfresh),
    attributeShares_sub takes (registerShare_sub h.shares row),
    by rw [h.out, List.append_assoc]⟩

theorem walkRow_follows (h : Follows done f w) (hfix : row.fixed = none)
    (hknown : row.valueMode = .linked → ∃ t, row.sourceId = some t ∧ (w.sales t).isSome)
    (hfresh : ∀ t, row.registers = some t → ¬(f.sales t).isSome)
    (hrow : walkRow f row = .ok f') :
    ∃ w', walkRow w row = .ok w' ∧ Follows done f' w' := by
  obtain ⟨fig, after, sales, short, takes, hstep, htrack, hf'⟩ := walkRow_eq_ok.mp hrow
  have hfresh' : ∀ t, row.registers = some t → sales t = none := fun t ht => by
    have := mt (rowStep_isSome hstep t).mp (hfresh t ht)
    simpa using this
  obtain ⟨sales', hstep', hsub⟩ : ∃ sales', rowStep w row = .ok (fig, after, sales') ∧
      sales'.Sub sales := by
    rcases rowStep_recomputed hfix hstep with ⟨hm, hs, rfl⟩ | ⟨sale, value, hm, hsale, hv, hs, rfl⟩
    · refine ⟨w.sales, ?_, h.sales⟩
      simp only [rowStep, hfix, if_neg hm, h.state, hs, ok_bind]
      rfl
    · obtain ⟨t, ht, hsome⟩ := hknown hm
      obtain ⟨x, hx⟩ := Option.isSome_iff_exists.mp hsome
      have hx' : x = sale := by
        rw [ht, Option.bind_some, h.sales t x hx, Option.some.injEq] at hsale
        exact hsale
      have hbind : row.sourceId.bind w.sales = some sale := by
        rw [ht, Option.bind_some, hx, hx']
      refine ⟨takeBack w.sales row.sourceId row.quantity value, ?_, takeBack_sub h.sales _ _ _⟩
      rw [hfix] at hs
      simp only [rowStep, hfix, if_pos hm, hbind, hv, ok_bind, h.state, hs]
      rfl
  have hsame : ({ row with fixed := none } : WalkRow) = row := by rw [← hfix]
  exact hsame ▸ h.walkRow (o := none) (hsame.symm ▸ hstep') htrack hsub hfresh' hf'

/-- A row that one walk recomputes the other may replay, with the figures it got there. -/
theorem replayRow_follows (h : Follows done f w) (hfix : row.fixed = none) {x : RowResult}
    (hfresh : ∀ t, row.registers = some t → ¬(f.sales t).isSome)
    (hrow : walkRow f row = .ok f') (hx : f'.out = f.out ++ [x]) :
    ∃ w', walkRow w { row with fixed := some (x.fig, x.after) } = .ok w' ∧
      Follows done f' w' := by
  obtain ⟨fig, after, sales, short, takes, hstep, htrack, hf'⟩ := walkRow_eq_ok.mp hrow
  have hfresh' : ∀ t, row.registers = some t → sales t = none := fun t ht => by
    have := mt (rowStep_isSome hstep t).mp (hfresh t ht)
    simpa using this
  obtain rfl : x = ⟨row.id, fig, after⟩ := by
    rw [hf'] at hx
    simpa using (List.append_cancel_left hx).symm
  have hsub : (takeBack w.sales row.linkedTo row.quantity fig.value).Sub sales := by
    rcases rowStep_recomputed hfix hstep with ⟨hm, hs, rfl⟩ | ⟨sale, value, hm, -, -, hs, rfl⟩
    · rw [WalkRow.linkedTo, if_neg hm]
      exact h.sales
    · have hval : value = fig.value := pure_eq_ok.mp (stepRow_inv hs).1
      rw [WalkRow.linkedTo, if_pos hm, ← hval]
      exact takeBack_sub h.sales _ _ _
  exact h.walkRow (o := some (fig, after)) rfl htrack hsub hfresh' hf'

end Step

section Run

variable {done : List RowResult}

theorem walkRows_isSome : ∀ (rows : List WalkRow) {w w' : WalkLoop}, walkRows w rows = .ok w' →
    ∀ t, ((w'.sales t).isSome ↔ (w.sales t).isSome ∨ ∃ row ∈ rows, row.registers = some t)
  | [], w, w', h, t => by rw [foldlM_nil_ok.mp h]; simp
  | row :: rows, w, w', h, t => by
    obtain ⟨w₁, h1, h2⟩ := foldlM_cons_ok.mp h
    rw [walkRows_isSome rows h2 t, walkRow_isSome h1]
    simp [or_assoc]

/-- Each row gives one more result. -/
theorem walkRows_out : ∀ (rows : List WalkRow) {w w' : WalkLoop}, walkRows w rows = .ok w' →
    ∃ xs, w'.out = w.out ++ xs ∧ xs.map (·.id) = rows.map (·.id)
  | [], w, w', h => ⟨[], by rw [← foldlM_nil_ok.mp h, List.append_nil], rfl⟩
  | row :: rows, w, w', h => by
    obtain ⟨w₁, h1, h2⟩ := foldlM_cons_ok.mp h
    obtain ⟨fig, after, sales, short, takes, -, -, rfl⟩ := walkRow_eq_ok.mp h1
    obtain ⟨xs, hxs, hids⟩ := walkRows_out rows h2
    exact ⟨⟨row.id, fig, after⟩ :: xs, by rw [hxs, List.append_assoc]; rfl, by simp [hids]⟩

/-- The first result of a walk is its first row's. -/
theorem walkRow_out_cons {row : WalkRow} {rows : List WalkRow} {w w₁ w' : WalkLoop} {x : RowResult}
    {xs : List RowResult} (h1 : walkRow w row = .ok w₁) (h2 : walkRows w₁ rows = .ok w')
    (hout : w'.out = w.out ++ x :: xs) : w₁.out = w.out ++ [x] ∧ w'.out = w₁.out ++ xs := by
  obtain ⟨fig, after, sales, short, takes, -, -, rfl⟩ := walkRow_eq_ok.mp h1
  obtain ⟨ys, hys, -⟩ := walkRows_out rows h2
  rw [hout, List.append_assoc] at hys
  obtain ⟨rfl, rfl⟩ := List.cons.inj (List.append_cancel_left hys)
  exact ⟨rfl, by rw [hout, List.append_assoc]; rfl⟩

theorem walkRows_follows : ∀ (rows : List WalkRow) {f w f' : WalkLoop}, Follows done f w →
    (∀ row ∈ rows, row.fixed = none) → LinksKnown (fun t => (w.sales t).isSome) rows →
    SalesFresh (fun t => (f.sales t).isSome) rows → walkRows f rows = .ok f' →
    ∃ w', walkRows w rows = .ok w' ∧ Follows done f' w'
  | [], f, w, f', h, _, _, _, hrun => ⟨w, rfl, foldlM_nil_ok.mp hrun ▸ h⟩
  | row :: rows, f, w, f', h, hfix, hknown, hfresh, hrun => by
    obtain ⟨f₁, h1, h2⟩ := foldlM_cons_ok.mp hrun
    obtain ⟨w₁, h3, h4⟩ :=
      walkRow_follows h (hfix row List.mem_cons_self) hknown.1 hfresh.1 h1
    obtain ⟨w', h5, h6⟩ := walkRows_follows rows h4
      (fun r hr => hfix r (List.mem_cons_of_mem _ hr))
      (hknown.2.congr fun t => (walkRow_isSome h3 t).symm)
      (hfresh.2.congr fun t => (walkRow_isSome h1 t).symm) h2
    exact ⟨w', foldlM_cons_ok.mpr ⟨w₁, h3, h5⟩, h6⟩

/-- A row with its result replayed instead of recomputed. -/
def WalkRow.replay (row : WalkRow) (x : RowResult) : WalkRow :=
  { row with fixed := some (x.fig, x.after) }

theorem replay_follows : ∀ (rows : List WalkRow) (xs : List RowResult) {f w f' : WalkLoop},
    xs.length = rows.length → Follows done f w → (∀ row ∈ rows, row.fixed = none) →
    SalesFresh (fun t => (f.sales t).isSome) rows → walkRows f rows = .ok f' →
    f'.out = f.out ++ xs →
    ∃ w', walkRows w (List.zipWith WalkRow.replay rows xs) = .ok w' ∧ Follows done f' w'
  | [], xs, f, w, f', _, h, _, _, hrun, _ => ⟨w, by rfl, foldlM_nil_ok.mp hrun ▸ h⟩
  | row :: rows, [], _, _, _, hlen, _, _, _, _, _ => by simp at hlen
  | row :: rows, x :: xs, f, w, f', hlen, h, hfix, hfresh, hrun, hout => by
    obtain ⟨f₁, h1, h2⟩ := foldlM_cons_ok.mp hrun
    obtain ⟨hx, hxs⟩ := walkRow_out_cons h1 h2 hout
    obtain ⟨w₁, h3, h4⟩ := replayRow_follows h (hfix row List.mem_cons_self) hfresh.1 h1 hx
    obtain ⟨w', h5, h6⟩ := replay_follows rows xs (by simpa using hlen) h4
      (fun r hr => hfix r (List.mem_cons_of_mem _ hr))
      (hfresh.2.congr fun t => (walkRow_isSome h1 t).symm) h2 hxs
    exact ⟨w', foldlM_cons_ok.mpr ⟨w₁, h3, h5⟩, h6⟩

end Run

end MyBooks
