import MyBooks.Ledger

/-!
# An incremental re-walk is the full walk

Where the stored rows before a point carry the figures of the full walk over them, re-walking from
that point gives every later row, and every sale's correction share, what the full walk over all
the rows gives them (`rewalk_walk`). So an item's stored rows carry the figures of their full walk
again after `walkItem` (`walkItem_rewalks`).
-/

namespace MyBooks

section Links

/-- The links of the sales `ts`, when each has one. -/
theorem foldlM_links {f : Id → Option SaleLink} : ∀ (ts : List Id) (links : IdMap SaleLink),
    (∀ t ∈ ts, (f t).isSome) →
    ∃ links', ts.foldlM (fun (links : IdMap SaleLink) saleId =>
        match f saleId with
        | none => (.error .returnWithoutSale : Except WalkError (IdMap SaleLink))
        | some link => .ok (links.set saleId link)) links = .ok links' ∧
      ∀ t, links' t = if t ∈ ts then f t else links t
  | [], links, _ => ⟨links, rfl, fun t => by simp⟩
  | s :: ts, links, h => by
    obtain ⟨link, hlink⟩ := Option.isSome_iff_exists.mp (h s List.mem_cons_self)
    obtain ⟨links', h1, h2⟩ := foldlM_links ts (links.set s link)
      fun t ht => h t (List.mem_cons_of_mem _ ht)
    refine ⟨links', ?_, fun t => ?_⟩
    · rw [List.foldlM_cons]
      simp only [hlink, ok_bind]
      exact h1
    · rw [h2]
      by_cases hts : t = s
      · subst hts
        simp [hlink]
      · simp [hts, IdMap.set_of_ne]

theorem mem_outsideSales {all : List Movement} {t : Id} :
    t ∈ outsideSales all ↔
      (∃ m ∈ all, m.valueMode = .linked ∧ m.sourceTransactionId = some t) ∧
        ∀ s ∈ all, s.kind = .sale → s.transactionId ≠ t := by
  simp [outsideSales, and_assoc]

end Links

section Rewalk

variable {pre rows : List Movement}

/-- After rows that carry their results the running state is the one on the last of them. -/
theorem walkRows_state {l : List Movement} {w : WalkLoop}
    (h : walkRows (walkStart zeroState noLinks) (l.map Movement.recompute) = .ok w)
    (hout : w.out = l.map storedResult) : w.s = stateOf l.getLast? := by
  rcases List.eq_nil_or_concat l with rfl | ⟨l', m, rfl⟩
  · rw [← foldlM_nil_ok.mp h]
    rfl
  · rw [List.concat_eq_append, List.map_append] at h hout
    obtain ⟨w₁, -, h2⟩ := foldlM_append_ok.mp h
    obtain ⟨w₂, h3, h4⟩ := foldlM_cons_ok.mp h2
    obtain ⟨fig, after, sales, short, takes, -, -, rfl⟩ := walkRow_eq_ok.mp h3
    rw [← foldlM_nil_ok.mp h4] at hout ⊢
    have hlast := congrArg List.getLast? hout
    simp only [List.map_cons, List.map_nil, List.getLast?_append, List.getLast?_singleton,
      Option.some_or, Option.some.injEq] at hlast
    have : after = (storedFigures m).2 := congrArg RowResult.after hlast
    simp [stateOf, this]

/-- A sale before the rows walked is linked as the full walk knows it there: its share did not move
since, because nothing of it was left in the queue. -/
theorem storedLink_eq {a all : List Movement} {f : WalkLoop} (hl : LedgerOk (a ++ all))
    (hf : Mirror a f) (hshares : ∀ s ∈ a, s.kind = .sale → s.sourceTransactionId = none →
      (∀ m ∈ all, m.kind = .sale → m.transactionId ≠ s.transactionId) →
      f.shares s.transactionId = some s.correctionShare) {t : Id} (ht : t ∈ outsideSales all) :
    ∃ s ∈ a, s.kind = .sale ∧ s.transactionId = t ∧
      storedLink (a ++ all) all t = f.sales t := by
  obtain ⟨⟨m, hm, hlinked, hsrc⟩, hno⟩ := mem_outsideSales.mp ht
  obtain ⟨b, c, rfl⟩ := List.append_of_mem hm
  obtain ⟨s, hs, hk, hst⟩ := hl.after (a ++ b) m c t (by simp) hsrc
  have hsa : s ∈ a := by
    rcases List.mem_append.mp hs with hs | hs
    · exact hs
    · exact absurd hst (hno s (List.mem_append_left _ hs) hk)
  have hsl : s ∈ a ++ (b ++ m :: c) := List.mem_append_left _ hsa
  obtain ⟨hsnone, -⟩ := hl.sale s hsl hk
  refine ⟨s, hsa, hk, hst, ?_⟩
  subst hst
  have hfind : (a ++ (b ++ m :: c)).find?
      (fun x => x.transactionId = s.transactionId ∧ x.sourceTransactionId = none) = some s := by
    obtain ⟨x, hx⟩ := Option.isSome_iff_exists.mp
      (List.find?_isSome.mpr ⟨s, hsl, by simp [hsnone]⟩ :
        ((a ++ (b ++ m :: c)).find? (fun x => decide (x.transactionId = s.transactionId ∧
          x.sourceTransactionId = none))).isSome)
    have hp := List.find?_some hx
    simp only [decide_eq_true_eq] at hp
    rw [hx, hl.sale_unique (List.mem_of_find?_eq_some hx) hsl hp.2 hsnone hp.1]
  have hback : ((a ++ (b ++ m :: c)).filter
      (fun x => x.sourceTransactionId = some s.transactionId)).filter
      (fun x => x.id ∉ (b ++ m :: c).map (·.id)) = backOf a s.transactionId := by
    have hids := hl.ids
    rw [List.map_append, List.nodup_append] at hids
    rw [List.filter_append, List.filter_append]
    have h1 : ((b ++ m :: c).filter (fun x => x.sourceTransactionId = some s.transactionId)).filter
        (fun x => x.id ∉ (b ++ m :: c).map (·.id)) = [] := by
      rw [List.filter_eq_nil_iff]
      intro x hx
      rw [decide_eq_true_eq, not_not]
      exact List.mem_map_of_mem (f := (·.id)) (List.mem_of_mem_filter hx)
    have h2 : (a.filter (fun x => x.sourceTransactionId = some s.transactionId)).filter
        (fun x => x.id ∉ (b ++ m :: c).map (·.id)) = backOf a s.transactionId := by
      rw [List.filter_eq_self.mpr, backOf]
      intro x hx
      have hxa := List.mem_map_of_mem (f := (·.id)) (List.mem_of_mem_filter hx)
      exact decide_eq_true fun hmem => hids.2.2 _ hxa _ hmem rfl
    rw [h1, h2, List.append_nil]
  obtain ⟨y, hy, hsale⟩ := hf.sale s hsa hk
  have hys : y = s.correctionShare := by
    rw [hshares s hsa hk hsnone hno, Option.some.injEq] at hy
    exact hy.symm
  rw [hsale, storedLink]
  simp only [hfind, hback, Option.map_some, hys]

theorem zipWith_replay (ms : List Movement) :
    List.zipWith WalkRow.replay (ms.map Movement.recompute) (ms.map storedResult) =
      ms.map Movement.replay := by
  induction ms with
  | nil => rfl
  | cons m ms ih => exact congrArg (_ :: ·) ih

/-- A row's sale is known to the walk seeded past `a`: it is linked from outside, or walked. -/
theorem rewalk_linksKnown {a p : List Movement} {w : WalkLoop} (hl : LedgerOk (a ++ (p ++ rows)))
    (hw : ∀ t, (w.sales t).isSome ↔ t ∈ outsideSales (p ++ rows) ∨
      ∃ m ∈ p, m.recompute.registers = some t) :
    LinksKnown (fun t => (w.sales t).isSome) (rows.map Movement.recompute) := by
  refine LinksKnown.of_movements rows fun b m c hsplit hm => ?_
  subst hsplit
  have hall : ∀ x, x ∈ p ++ (b ++ m :: c) → x ∈ a ++ (p ++ (b ++ m :: c)) :=
    fun x hx => List.mem_append_right _ hx
  have hml : m ∈ p ++ (b ++ m :: c) := by simp
  obtain ⟨t, ht⟩ := Option.ne_none_iff_exists'.mp ((hl.linked m (hall m hml)).mp hm)
  obtain ⟨s, hs, hk, hst⟩ := hl.after (a ++ p ++ b) m c t (by simp) ht
  have hreg : s.recompute.registers = some t :=
    recompute_registers (fun hk => (hl.sale s (by simp at hs ⊢; tauto) hk).2) t |>.mpr ⟨hk, hst⟩
  refine ⟨t, ht, ?_⟩
  rw [hw]
  rcases List.mem_append.mp hs with hs' | hs'
  · rcases List.mem_append.mp hs' with hsa | hsp
    · refine Or.inl (Or.inl (mem_outsideSales.mpr ⟨⟨m, hml, hm, ht⟩, fun s' hs' hk' hst' => ?_⟩))
      -- the sale before the rows walked is the only one
      have hsl : s ∈ a ++ (p ++ (b ++ m :: c)) := List.mem_append_left _ hsa
      have heq := hl.sale_unique hsl (hall s' hs') (hl.sale s hsl hk).1
        (hl.sale s' (hall s' hs') hk').1 (hst.trans hst'.symm)
      obtain ⟨x, y, hxy⟩ := List.append_of_mem hs'
      rw [hxy, ← List.append_assoc] at hl
      exact hl.not_mem (List.mem_append_left _ (heq ▸ hsa))
    · exact Or.inl (Or.inr ⟨s, hsp, hreg⟩)
  · exact Or.inr ⟨s, hs', hreg⟩

theorem recompute_fixed (ms : List Movement) :
    ∀ row ∈ ms.map Movement.recompute, row.fixed = none := by
  intro row hrow
  obtain ⟨m, -, rfl⟩ := List.mem_map.mp hrow
  rfl

/-- The full walk at the start of the rows replayed, at the start of the re-walk, and at its end. -/
structure FullWalk (a p rows : List Movement) (fa fp full : WalkLoop) : Prop where
  first : walkRows (walkStart zeroState noLinks) (a.map Movement.recompute) = .ok fa
  replayed : walkRows fa (p.map Movement.recompute) = .ok fp
  rest : walkRows fp (rows.map Movement.recompute) = .ok full
  firstOut : fa.out = a.map storedResult
  replayedOut : fp.out = fa.out ++ p.map storedResult
  restOut : ∃ xs, full.out = fp.out ++ xs ∧ xs.map (·.id) = rows.map (·.id)

theorem fullWalk {a p : List Movement} {r : WalkResult} (hl : LedgerOk (a ++ (p ++ rows)))
    (hr : walk zeroState ((a ++ p).map Movement.recompute) noLinks = .ok r)
    (hc : Carries (a ++ p) r) :
    ∃ fa fp full, FullWalk a p rows fa fp full ∧ fp.shares = r.shares ∧
      walk zeroState ((a ++ (p ++ rows)).map Movement.recompute) noLinks =
        .ok ⟨full.out, full.negative, full.s, full.shares⟩ := by
  obtain ⟨fp, hfp, hr'⟩ := bind_eq_ok.mp hr
  have hres := pure_eq_ok.mp hr'
  obtain ⟨full, -, hfull, -⟩ := walkRows_chained ((a ++ (p ++ rows)).map Movement.recompute)
    (walkStart zeroState noLinks) (recompute_fixed _)
    (hl.linksKnown.congr fun t => by simp [walkStart, noLinks])
  rw [List.map_append] at hfp
  obtain ⟨fa, hfa, hfap⟩ := foldlM_append_ok.mp hfp
  have hrest : walkRows fp (rows.map Movement.recompute) = .ok full := by
    rw [← List.append_assoc, List.map_append] at hfull
    obtain ⟨g, hg, hg'⟩ := foldlM_append_ok.mp hfull
    rw [List.map_append] at hg
    obtain rfl : fp = g := Except.ok.inj (hfp.symm.trans hg)
    exact hg'
  obtain ⟨xs, hxs, hxids⟩ := walkRows_out _ hfa
  obtain ⟨ys, hys, -⟩ := walkRows_out _ hfap
  obtain ⟨zs, hzs, hzids⟩ := walkRows_out _ hrest
  have hout : xs ++ ys = a.map storedResult ++ p.map storedResult := by
    rw [← List.map_append, ← hc.rows, ← hres, hys, hxs]
    rfl
  obtain ⟨rfl, rfl⟩ := List.append_inj hout (by simpa using congrArg List.length hxids)
  refine ⟨fa, fp, full, ⟨hfa, hfap, hrest, by rw [hxs]; rfl, hys, zs, hzs,
    hzids.trans (by rw [List.map_map]; rfl)⟩,
    by rw [← hres], ?_⟩
  rw [walk, hfull]
  rfl

section Seeded

variable {a p : List Movement} {fa fp full : WalkLoop}

/-- What is not walked again keeps its share: the queue is empty where the re-walk starts. -/
theorem FullWalk.kept (hw : FullWalk a p rows fa fp full) (hfa : LoopOk fa)
    (hempty : fa.short = []) {t : Id} (ht : ∀ m ∈ p ++ rows, m.recompute.registers ≠ some t) :
    fp.shares t = fa.shares t ∧ full.shares t = fa.shares t := by
  have hrun : walkRows fa ((p ++ rows).map Movement.recompute) = .ok full := by
    rw [List.map_append]
    exact foldlM_append_ok.mpr ⟨fp, hw.replayed, hw.rest⟩
  refine ⟨walkRows_share _ hfa (recompute_fixedOk _ _) (by simp [hempty]) ?_ hw.replayed,
    walkRows_share _ hfa (recompute_fixedOk _ _) (by simp [hempty]) ?_ hrun⟩
  · intro row hrow
    obtain ⟨m, hm, rfl⟩ := List.mem_map.mp hrow
    exact ht m (List.mem_append_left _ hm)
  · intro row hrow
    obtain ⟨m, hm, rfl⟩ := List.mem_map.mp hrow
    exact ht m hm

/-- The links of a re-walk are what the full walk knows of the sales outside it. -/
theorem storedLinks_eq {all : List Movement} {f : WalkLoop} (hl : LedgerOk (a ++ all))
    (hf : Mirror a f) (hshares : ∀ s ∈ a, s.kind = .sale → s.sourceTransactionId = none →
      (∀ m ∈ all, m.kind = .sale → m.transactionId ≠ s.transactionId) →
      f.shares s.transactionId = some s.correctionShare) :
    ∃ links, storedLinks (a ++ all) all = .ok links ∧
      ∀ t, links t = if t ∈ outsideSales all then f.sales t else none := by
  have hlink := fun t ht => storedLink_eq (t := t) hl hf hshares ht
  obtain ⟨links, hlinks, heq⟩ := foldlM_links (f := storedLink (a ++ all) all) (outsideSales all)
    noLinks fun t ht => by
      obtain ⟨s, hs, hk, rfl, h⟩ := hlink t ht
      obtain ⟨y, -, hy⟩ := hf.sale s hs hk
      rw [h, hy]
      rfl
  refine ⟨links, hlinks, fun t => ?_⟩
  rw [heq]
  split_ifs with ht
  · obtain ⟨s, -, -, -, h⟩ := hlink t ht
    exact h
  · rfl

/-- A sale linked from outside is known to the full walk. -/
theorem outside_known {all : List Movement} {f : WalkLoop} (hl : LedgerOk (a ++ all))
    (hf : Mirror a f) {t : Id} (ht : t ∈ outsideSales all) : (f.sales t).isSome := by
  obtain ⟨⟨m, hm, -, hsrc⟩, hno⟩ := mem_outsideSales.mp ht
  obtain ⟨b, c, rfl⟩ := List.append_of_mem hm
  obtain ⟨s, hs, hk, rfl⟩ := hl.after (a ++ b) m c t (by simp) hsrc
  have hsa : s ∈ a := (List.mem_append.mp hs).resolve_right
    fun hsb => hno s (List.mem_append_left _ hsb) hk rfl
  obtain ⟨y, -, hy⟩ := hf.sale s hsa hk
  rw [hy]
  rfl

/-- The walk seeded past `a` with those links follows the full walk, row for row. -/
theorem FullWalk.follows (hw : FullWalk a p rows fa fp full) (hl : LedgerOk (a ++ (p ++ rows)))
    (hfa : Mirror a fa) (hfp : Mirror (a ++ p) fp) (hstate : fa.s = stateOf a.getLast?)
    (hempty : fa.short = []) (hq : 0 ≤ (stateOf a.getLast?).q) {links : IdMap SaleLink}
    (hlinks : ∀ t, links t = if t ∈ outsideSales (p ++ rows) then fa.sales t else none) :
    ∃ w, walkRows (walkStart (stateOf a.getLast?) links)
        (p.map Movement.replay ++ rows.map Movement.recompute) = .ok w ∧
      Follows fa.out full w := by
  have hstart : Follows fa.out fa (walkStart (stateOf a.getLast?) links) := by
    refine ⟨hstate.symm, ?_, fun t x hx => ?_, fun t x hx => (by cases hx),
      (List.append_nil _).symm⟩
    · rw [hempty]
      exact if_neg (not_lt.mpr hq)
    · have hx' : links t = some x := hx
      rw [hlinks] at hx'
      split_ifs at hx'
      exact hx'
  obtain ⟨wp, hwp, hfollows⟩ := replay_follows _ (p.map storedResult) (by simp) hstart
    (recompute_fixed p)
    (LedgerOk.salesFresh (b := p) (by rw [← List.append_assoc] at hl; exact hl.left) hfa.known)
    hw.replayed hw.replayedOut
  rw [zipWith_replay] at hwp
  have hknown : ∀ t, (wp.sales t).isSome ↔ t ∈ outsideSales (p ++ rows) ∨
      ∃ m ∈ p, m.recompute.registers = some t := by
    intro t
    rw [walkRows_isSome _ hwp t]
    refine or_congr ?_ ⟨?_, fun ⟨m, hm, h⟩ => ⟨m.replay, List.mem_map_of_mem hm, h⟩⟩
    · change (links t).isSome ↔ _
      rw [hlinks]
      split_ifs with ht
      · simp [ht, outside_known hl hfa ht]
      · simp [ht]
    · rintro ⟨row, hrow, h⟩
      obtain ⟨m, hm, rfl⟩ := List.mem_map.mp hrow
      exact ⟨m, hm, h⟩
  obtain ⟨w, hrows, hfollows'⟩ := walkRows_follows _ hfollows (recompute_fixed rows)
    (rewalk_linksKnown hl hknown)
    (LedgerOk.salesFresh (by rw [List.append_assoc]; exact hl) hfp.known) hw.rest
  exact ⟨w, foldlM_append_ok.mpr ⟨wp, hwp, hrows⟩, hfollows'⟩

/-- The seeded walk keeps a share for the sales among its rows, and for no others. -/
theorem seeded_share {seed : WalkState} {links : IdMap SaleLink} {w : WalkLoop}
    (h : walkRows (walkStart seed links)
      (p.map Movement.replay ++ rows.map Movement.recompute) = .ok w) (t : Id) :
    (w.shares t).isSome ↔ ∃ m ∈ p ++ rows, m.recompute.registers = some t := by
  rw [walkRows_share_isSome _ h t]
  constructor
  · rintro (hnone | ⟨row, hrow, hreg⟩)
    · cases hnone
    · rcases List.mem_append.mp hrow with hrow | hrow <;>
        obtain ⟨m, hm, rfl⟩ := List.mem_map.mp hrow
      · exact ⟨m, List.mem_append_left _ hm, hreg⟩
      · exact ⟨m, List.mem_append_right _ hm, hreg⟩
  · rintro ⟨m, hm, hreg⟩
    refine Or.inr ?_
    rcases List.mem_append.mp hm with hm | hm
    · exact ⟨m.replay, List.mem_append_left _ (List.mem_map_of_mem hm), hreg⟩
    · exact ⟨m.recompute, List.mem_append_right _ (List.mem_map_of_mem hm), hreg⟩

/-- A sale before the rows walked is none of them. -/
theorem LedgerOk.sale_apart {all : List Movement} (hl : LedgerOk (a ++ all)) {m m' : Movement}
    (hm : m ∈ a) (hk : m.kind = .sale) (hm' : m' ∈ all) (hk' : m'.kind = .sale) :
    m'.transactionId ≠ m.transactionId := by
  intro ht
  have hml : m ∈ a ++ all := List.mem_append_left _ hm
  have hml' : m' ∈ a ++ all := List.mem_append_right _ hm'
  have heq := hl.sale_unique hml hml' (hl.sale m hml hk).1 (hl.sale m' hml' hk').1 ht.symm
  obtain ⟨b, c, rfl⟩ := List.append_of_mem hm'
  rw [← List.append_assoc] at hl
  exact hl.not_mem (List.mem_append_left b (heq ▸ hm))

end Seeded

/-- Re-walking from any point computes what the full walk computes there. -/
theorem rewalk_walk (hl : LedgerOk (pre ++ rows)) {r : WalkResult}
    (hr : walk zeroState (pre.map Movement.recompute) noLinks = .ok r) (hc : Carries pre r) :
    ∃ full re, walk zeroState ((pre ++ rows).map Movement.recompute) noLinks = .ok full ∧
      rewalk pre rows = .ok re ∧ full.rows = pre.map storedResult ++ re.own ∧
      re.own.map (·.id) = rows.map (·.id) ∧
      (∀ m ∈ pre ++ rows, m.kind = .sale → full.shares m.transactionId = some (re.share m)) ∧
      ∀ m ∈ pre, m ∉ re.replayed → m.kind = .sale → re.share m = m.correctionShare := by
  obtain ⟨a, hsplit, hseed, hq⟩ := walkSeed_split hl.left
  generalize hp : (walkSeed pre).2 = p at hsplit
  subst hsplit
  rw [List.append_assoc] at hl
  obtain ⟨fa, fp, full, hw, hfps, hfull⟩ := fullWalk hl hr hc
  have hfa : Mirror a fa := by
    simpa using Mirror.run a (l := []) hl (Mirror.start zeroState le_rfl) hw.first hw.firstOut
  have hfp : Mirror (a ++ p) fp := hfa.run p hl hw.replayed hw.replayedOut
  have hstate : fa.s = stateOf a.getLast? := walkRows_state hw.first hw.firstOut
  have hempty : fa.short = [] := hfa.loop.short.eq_nil (hstate ▸ hq)
  have hreg : ∀ m ∈ p ++ rows, ∀ t,
      m.recompute.registers = some t ↔ m.kind = .sale ∧ m.transactionId = t :=
    fun m hm => hl.registers (List.mem_append_right _ hm)
  obtain ⟨links, hlinks, hlinksEq⟩ := storedLinks_eq hl hfa fun s hs hk hsn hno => by
    have hkept := hw.kept hfa.loop hempty (t := s.transactionId) fun m hm h =>
      hno m hm ((hreg m hm _).mp h).1 ((hreg m hm _).mp h).2
    rw [← hkept.1, hfps]
    exact hc.shares s (List.mem_append_left _ hs) hk
  obtain ⟨w, hwalk, hfollows⟩ := hw.follows hl hfa hfp hstate hempty hq hlinksEq
  obtain ⟨xs, hxs, hxids⟩ := hw.restOut
  have hwout : w.out = p.map storedResult ++ xs := by
    have := hfollows.out
    rw [hxs, hw.replayedOut, List.append_assoc] at this
    exact (List.append_cancel_left this).symm
  refine ⟨_, ⟨p, xs, w.shares⟩, by rw [List.append_assoc]; exact hfull, ?_, ?_, hxids, ?_, ?_⟩
  · have hws : walkSeed (a ++ p) = (stateOf a.getLast?, p) := Prod.ext hseed hp
    have hlinks' : storedLinks (a ++ p ++ rows) (p ++ rows) = .ok links := by
      rw [List.append_assoc]
      exact hlinks
    have hdrop : w.out.drop p.length = xs := by
      rw [hwout, ← List.length_map (f := storedResult), List.drop_left]
    simp only [rewalk, hws, hlinks', ok_bind, walk, hwalk]
    exact congrArg (fun own => Except.ok (⟨p, own, w.shares⟩ : Rewalk)) hdrop
  · rw [hxs, hw.replayedOut, hw.firstOut, List.map_append]
  · intro m hm hk
    rw [List.append_assoc] at hm
    rw [Rewalk.share, if_pos ⟨hk, (hl.sale m hm hk).1⟩]
    dsimp only
    rcases hs : w.shares m.transactionId with _ | x
    · have hno : ∀ m' ∈ p ++ rows, m'.recompute.registers ≠ some m.transactionId :=
        fun m' hm' h => by simpa [hs] using (seeded_share hwalk _).mpr ⟨m', hm', h⟩
      have hma : m ∈ a := (List.mem_append.mp hm).resolve_right
        fun hm' => hno m hm' ((hreg m hm' _).mpr ⟨hk, rfl⟩)
      obtain ⟨h1, h2⟩ := hw.kept hfa.loop hempty hno
      rw [Option.getD_none, h2, ← h1, hfps]
      exact hc.shares m (List.mem_append_left _ hma) hk
    · rw [Option.getD_some]
      exact hfollows.shares _ _ hs
  · intro m hm hmp hk
    have hma : m ∈ a := (List.mem_append.mp hm).resolve_right hmp
    rw [Rewalk.share, if_pos ⟨hk, (hl.sale m (List.mem_append_left _ hma) hk).1⟩]
    dsimp only
    rcases hs : w.shares m.transactionId with _ | x
    · rfl
    · obtain ⟨m', hm', hreg'⟩ := (seeded_share hwalk m.transactionId).mp (by rw [hs]; rfl)
      obtain ⟨hk', ht'⟩ := (hreg m' hm' _).mp hreg'
      exact absurd ht' (hl.sale_apart hma hk hm' hk')

end Rewalk

section Columns

/-- A result that its columns hold exactly. -/
structure FitsColumns (x : RowResult) : Prop where
  cents : RowCents x.fig x.after
  q : Places 4 x.after.q
  l : Places 6 x.after.l

theorem lastCost_places {s : WalkState} {q v l : Dec} (hl : Places 6 s.l)
    (h : lastCost s q v = .ok l) : Places 6 l := by
  unfold lastCost at h
  split_ifs at h
  · obtain ⟨x, -, hx⟩ := bind_eq_ok.mp h
    rw [← pure_eq_ok.mp hx]
    exact places_toPlaces 6 x
  · rw [← pure_eq_ok.mp h]
    exact hl

theorem stepRow_places {s after : WalkState} {row : WalkRow} {fig : RowFigures}
    (hq : Places 4 s.q) (hl : Places 6 s.l) (hrow : Places 4 row.quantity)
    (h : stepRow s row = .ok (fig, after)) : Places 4 after.q ∧ Places 6 after.l := by
  refine ⟨(stepRow_spec h).onHand ▸ hq.add hrow, ?_⟩
  unfold stepRow at h
  simp only [bind_eq_ok, pure_eq_ok, Prod.mk.injEq] at h
  obtain ⟨v, -, c, -, l, hlast, -, rfl⟩ := h
  exact lastCost_places hl hlast

theorem rowStep_places {w : WalkLoop} {row : WalkRow} {fig : RowFigures} {after : WalkState}
    {sales : IdMap SaleLink} (hfix : row.fixed = none) (hq : Places 4 w.s.q) (hl : Places 6 w.s.l)
    (hrow : Places 4 row.quantity) (h : rowStep w row = .ok (fig, after, sales)) :
    Places 4 after.q ∧ Places 6 after.l := by
  rcases rowStep_recomputed hfix h with ⟨-, hs, -⟩ | ⟨_, value, -, -, -, hs, -⟩
  · exact stepRow_places hq hl hrow hs
  · exact stepRow_places hq hl (by exact hrow) hs

/-- The full walk over an item's rows fits the columns, and its shares are whole cents. -/
theorem walk_fits {l : List Movement} (hl : LedgerOk l) {r : WalkResult}
    (h : walk zeroState (l.map Movement.recompute) noLinks = .ok r) :
    (∀ x ∈ r.rows, FitsColumns x) ∧ ∀ t y, r.shares t = some y → Cents y := by
  obtain ⟨w, hw, hr⟩ := bind_eq_ok.mp h
  rw [← pure_eq_ok.mp hr]
  have hquantity : ∀ row ∈ l.map Movement.recompute, Places 4 row.quantity := by
    intro row hrow
    obtain ⟨m, hm, rfl⟩ := List.mem_map.mp hrow
    exact hl.quantity m hm
  have hgiven : ∀ row ∈ l.map Movement.recompute, row.valueMode = .given →
      Cents (row.given.getD 0) := by
    intro row hrow hg
    obtain ⟨m, hm, rfl⟩ := List.mem_map.mp hrow
    have hg' : m.valueMode = .given := hg
    simpa [Movement.recompute, toWalk, hg'] using hl.given m hm hg'
  have hcents := walkRows_cents _ _ w (recompute_fixed l) Places.zero
    (fun t sale hs => by cases hs) hgiven (by simp [walkStart]) hw
  have hplaces : Places 4 w.s.q ∧ Places 6 w.s.l ∧
      ∀ x ∈ w.out, Places 4 x.after.q ∧ Places 6 x.after.l := by
    refine foldlM_keeps (fun w : WalkLoop => Places 4 w.s.q ∧ Places 6 w.s.l ∧
      ∀ x ∈ w.out, Places 4 x.after.q ∧ Places 6 x.after.l) ?_ ?_ hw
    · rintro row hrow w₁ w₂ ⟨h1, h2, h3⟩ hstep
      obtain ⟨fig, after, sales, short, takes, hrs, -, rfl⟩ := walkRow_eq_ok.mp hstep
      have hp := rowStep_places (recompute_fixed l row hrow) h1 h2 (hquantity row hrow) hrs
      refine ⟨hp.1, hp.2, fun x hx => ?_⟩
      rcases List.mem_append.mp hx with hx | hx
      · exact h3 x hx
      · rw [List.mem_singleton.mp hx]
        exact hp
    · exact ⟨Places.zero, Places.zero, by simp [walkStart]⟩
  have hshares : LoopOk w ∧ ∀ t y, w.shares t = some y → Cents y := by
    refine foldlM_keeps (fun w : WalkLoop => LoopOk w ∧ ∀ t y, w.shares t = some y → Cents y)
      ?_ ?_ hw
    · rintro row hrow w₁ w₂ ⟨h1, h2⟩ hstep
      obtain ⟨h3, fig, takes, hcures, -⟩ := walkRow_cures h1
        (fun _ _ hf => by rw [recompute_fixed l row hrow] at hf; cases hf) hstep
      refine ⟨h3, fun t y hy => ?_⟩
      have htakes : ∀ tk ∈ takes, Cents tk.share := by
        intro tk htk
        by_cases hc : 0 < row.quantity ∧ w₁.s.q < 0
        · exact (hcures.cures hc.1 hc.2).1.cents tk htk
        · rw [hcures.calm hc] at htk
          cases htk
      have hsum : Cents (sharesTo takes (some t)) := by
        refine Places.sum fun x hx => ?_
        obtain ⟨tk, htk, rfl⟩ := List.mem_map.mp hx
        exact htakes tk (List.mem_of_mem_filter htk)
      rw [hcures.shares] at hy
      obtain ⟨x, hx, rfl⟩ := Option.map_eq_some_iff.mp hy
      refine Places.add ?_ hsum
      unfold registerShare at hx
      rcases hr : row.registers with _ | t' <;> simp only [hr] at hx
      · exact h2 t x hx
      · by_cases htt : t = t'
        · subst htt
          rw [IdMap.set_self, Option.some.injEq] at hx
          exact hx ▸ Places.zero
        · rw [IdMap.set_of_ne _ _ htt] at hx
          exact h2 t x hx
    · exact ⟨walkStart_loopOk le_rfl noLinks, fun t y hy => by cases hy⟩
  exact ⟨fun x hx => ⟨hcents x hx, (hplaces.2.2 x hx).1, (hplaces.2.2 x hx).2⟩, hshares.2⟩

/-- A row stored with a result that fits its columns carries the result. -/
theorem storedResult_pushRow {m : Movement} {x : RowResult} (hx : FitsColumns x) (hid : x.id = m.id)
    (share : Dec) : storedResult (pushRow m x share) = x := by
  obtain ⟨⟨h1, h2, h3, h4⟩, h5, h6⟩ := hx
  have h : ∀ {v : Dec}, Cents v → toPlaces 4 v = v :=
    fun hv => toPlaces_of_places (hv.mono (by norm_num))
  simp only [storedResult, storedFigures, pushRow, withFigures, h h1, h h2, h h3, h h4,
    toPlaces_of_places h5, toPlaces_of_places h6, ← hid]

end Columns

section WalkItem

/-- In position order the rows before a document come before the others. -/
theorem split_at_start {l : List Movement} (hl : l.Pairwise (fun a b => a.pos ≤ b.pos))
    (start : Pos) :
    l = l.filter (fun m => m.pos < start) ++ l.filter (fun m => start ≤ m.pos) := by
  induction l with
  | nil => rfl
  | cons m l ih =>
    obtain ⟨h1, h2⟩ := List.pairwise_cons.mp hl
    by_cases hm : m.pos < start
    · rw [List.filter_cons_of_pos (by simpa using hm), List.filter_cons_of_neg (by simpa using hm),
        List.cons_append, ← ih h2]
    · have hall : ∀ x ∈ l, start ≤ x.pos := fun x hx => (not_lt.mp hm).trans (h1 x hx)
      rw [List.filter_eq_nil_iff.mpr, List.nil_append, List.filter_eq_self.mpr]
      · exact List.forall_mem_cons.mpr ⟨by simpa using hm, by simpa using hall⟩
      · exact List.forall_mem_cons.mpr ⟨by simpa using hm, by simpa using hall⟩

/-- The full walk's results follow on from one another. -/
theorem full_chained {l : List Movement} (hl : LedgerOk l) {r : WalkResult}
    (h : walk zeroState (l.map Movement.recompute) noLinks = .ok r) :
    Chained zeroState (l.map Movement.recompute) r.rows := by
  obtain ⟨w, hw, hr⟩ := bind_eq_ok.mp h
  obtain ⟨w', xs, hw', hout, hxs, -⟩ := walkRows_chained (l.map Movement.recompute)
    (walkStart zeroState noLinks) (recompute_fixed l)
    (hl.linksKnown.congr fun t => by simp [walkStart, noLinks])
  obtain rfl : w = w' := Except.ok.inj (hw.symm.trans hw')
  rw [← pure_eq_ok.mp hr]
  change Chained zeroState _ w.out
  rw [hout]
  exact hxs

/-- Past rows that carry their results the chain goes on from the state of the last of them. -/
theorem Chained.stored : ∀ {pre rows : List Movement} {s : WalkState} {xs : List RowResult},
    Chained s ((pre ++ rows).map Movement.recompute) (pre.map storedResult ++ xs) →
    Chained ((pre.getLast?.map fun m => (storedFigures m).2).getD s)
        (rows.map Movement.recompute) xs ∧
      ((pre.getLast?.map fun m => (storedFigures m).2).getD s).q =
        s.q + (pre.map (·.quantity)).sum
  | [], rows, s, xs, h => ⟨h, by simp⟩
  | m :: pre, rows, s, xs, ⟨_, hspec, h⟩ => by
    obtain ⟨h1, h2⟩ := Chained.stored h
    have hlast : ((m :: pre).getLast?.map fun m => (storedFigures m).2).getD s =
        (pre.getLast?.map fun m => (storedFigures m).2).getD (storedFigures m).2 := by
      rw [List.getLast?_cons]
      rcases pre.getLast? with _ | m' <;> rfl
    rw [hlast]
    refine ⟨h1, h2.trans ?_⟩
    have hq : (storedResult m).after.q = s.q + m.quantity := hspec.onHand
    rw [hq, List.map_cons, List.sum_cons, add_assoc]

theorem stateOf_getLast? (pre : List Movement) :
    stateOf pre.getLast? = (pre.getLast?.map fun m => (storedFigures m).2).getD zeroState := by
  rcases pre.getLast? with _ | m <;> rfl

/-- The check for stock passes where the quantities before each of the document's value-only
adjustments leave some, and refuses for nothing else. -/
theorem checkStock_spec (trigger : Id) : ∀ {rows : List Movement} {before : WalkState}
    {walked : List RowResult}, Chained before (rows.map Movement.recompute) walked →
    (checkStock trigger before rows walked = .ok () ↔
        ∀ a m b, rows = a ++ m :: b → m.transactionId = trigger → m.kind = .adjustValue →
          0 < before.q + (a.map (·.quantity)).sum) ∧
      ∀ e, checkStock trigger before rows walked = .error e → ∃ date onHand, e = .noStock date onHand
  | [], before, walked, h => ⟨by simp [checkStock], fun e he => by simp [checkStock] at he⟩
  | m :: rows, before, [], h => h.elim
  | m :: rows, before, x :: walked, ⟨_, hspec, h⟩ => by
    obtain ⟨h1, h2⟩ := checkStock_spec trigger h
    have hq : x.after.q = before.q + m.quantity := hspec.onHand
    rw [checkStock]
    split_ifs with hm
    · refine ⟨⟨nofun, fun hall => ?_⟩, fun e he => ⟨_, _, (Except.error.inj he).symm⟩⟩
      have := hall [] m rows rfl hm.1 hm.2.1
      rw [List.map_nil, List.sum_nil, add_zero] at this
      exact absurd hm.2.2 (not_le.mpr this)
    · refine ⟨h1.trans ⟨fun hall a m' b hsplit ht hk => ?_, fun hall a m' b hsplit ht hk => ?_⟩, h2⟩
      · rcases a with _ | ⟨m'', a⟩
        · obtain ⟨rfl, -⟩ := List.cons.inj hsplit
          simpa using not_le.mp fun hle => hm ⟨ht, hk, hle⟩
        · obtain ⟨rfl, hrest⟩ := List.cons.inj hsplit
          have := hall a m' b hrest ht hk
          rwa [hq, add_assoc, ← List.sum_cons] at this
      · have := hall (m :: a) m' b (by rw [hsplit]; rfl) ht hk
        rwa [List.map_cons, List.sum_cons, ← add_assoc, ← hq] at this

/-- A walk may start only past the closing date. -/
def OpenAt (start : Pos) (lockDate : Option String) : Prop :=
  ∀ d, lockDate = some d → d < (ofLex start).1

/-- Each value-only adjustment of the document has the item on hand before it. -/
def InStock (trigger : Id) (pre rows : List Movement) : Prop :=
  ∀ a m b, rows = a ++ m :: b → m.transactionId = trigger → m.kind = .adjustValue →
    0 < ((pre ++ a).map (·.quantity)).sum

/-- What the rows leave on hand, and its value, fit their columns. -/
def FitsLimits (xs : List RowResult) : Prop :=
  ∀ x ∈ xs, |x.after.q| < qtyLimit ∧ |x.after.v| < moneyLimit

/-- What a re-walk answers: it refuses a start in a closed period, then a value-only adjustment of
the document without stock, then a row that outgrows its columns, and else stores the full walk. -/
structure Answers (start : Pos) (trigger : Id) (lockDate : Option String)
    (pre rows : List Movement) (own : List RowResult) (full : WalkResult)
    (answer : Except CostingError ItemWalk) : Prop where
  accepted : (∃ out, answer = .ok out) ↔
    OpenAt start lockDate ∧ InStock trigger pre rows ∧ FitsLimits own
  stored : ∀ out, answer = .ok out → Carries out.stored full
  closed : answer = .error .closedPeriod ↔ ¬OpenAt start lockDate
  noStock : (∃ date onHand, answer = .error (.noStock date onHand)) ↔
    OpenAt start lockDate ∧ ¬InStock trigger pre rows
  tooLarge : answer = .error .tooLarge ↔
    OpenAt start lockDate ∧ InStock trigger pre rows ∧ ¬FitsLimits own

theorem openAt_iff {start : Pos} {lockDate : Option String} :
    OpenAt start lockDate ↔ ¬lockDate.any (fun d => (ofLex start).1 ≤ d) := by
  rcases lockDate with _ | d <;> simp [OpenAt]

theorem fitsLimits_iff {xs : List RowResult} :
    FitsLimits xs ↔ ¬xs.any (fun x => x.tooLarge) := by
  rw [List.any_eq_true, not_exists]
  refine forall_congr' fun x => ?_
  rw [not_and, decide_eq_true_eq, RowResult.tooLarge, not_or, not_le, not_le]

/-- The rows stored after a re-walk of `rows`. -/
def Rewalk.stored (re : Rewalk) (pre rows : List Movement) : List Movement :=
  pre.map (fun m => if m ∈ re.replayed then moveShare m (re.share m) else m) ++
    (rows.zip re.own).map (fun mx => pushRow mx.1 mx.2 (re.share mx.1))

theorem walkItem_eq (itemId trigger : Id) (lockDate : Option String) {l pre rows : List Movement}
    {start : Pos} {re : Rewalk} (hpre : l.filter (fun m => m.pos < start) = pre)
    (hrows : l.filter (fun m => start ≤ m.pos) = rows) (hre : rewalk pre rows = .ok re) :
    ∃ out : ItemWalk, out.stored = re.stored pre rows ∧
      walkItem itemId l start trigger lockDate =
        if lockDate.any (fun d => (ofLex start).1 ≤ d) then .error .closedPeriod
        else checkStock trigger (stateOf pre.getLast?) rows re.own >>= fun _ =>
          if re.own.any (fun x => x.tooLarge) then .error .tooLarge else .ok out := by
  unfold walkItem
  simp only [hpre, hrows, hre]
  exact ⟨_, rfl, rfl⟩

theorem storedResult_moveShare (m : Movement) (share : Dec) :
    storedResult (moveShare m share) = storedResult m := by
  unfold moveShare
  split_ifs <;> rfl

/-- Rows stored with the results of the full walk carry them. -/
theorem carries_stored {pre rows : List Movement} (hl : LedgerOk (pre ++ rows))
    {full : WalkResult} {re : Rewalk}
    (hfull : walk zeroState ((pre ++ rows).map Movement.recompute) noLinks = .ok full)
    (hrows : full.rows = pre.map storedResult ++ re.own)
    (hids : re.own.map (·.id) = rows.map (·.id))
    (hshares : ∀ m ∈ pre ++ rows, m.kind = .sale →
      full.shares m.transactionId = some (re.share m))
    (hkept : ∀ m ∈ pre, m ∉ re.replayed → m.kind = .sale → re.share m = m.correctionShare) :
    Carries (re.stored pre rows) full := by
  rw [Rewalk.stored]
  obtain ⟨hfits, hcents⟩ := walk_fits hl hfull
  have hcents' : ∀ m ∈ pre ++ rows, m.kind = .sale →
      toPlaces 4 (re.share m) = re.share m := fun m hm hk =>
    toPlaces_of_places ((hcents _ _ (hshares m hm hk)).mono (by norm_num))
  refine ⟨?_, fun m hm hk => ?_⟩
  · rw [hrows, List.map_append, List.map_map, List.map_map]
    congr 1
    · refine List.map_congr_left fun m _ => ?_
      simp only [Function.comp_apply]
      split_ifs
      · exact (storedResult_moveShare m _).symm
      · rfl
    · have hlen : rows.length = re.own.length := by simpa using (congrArg List.length hids).symm
      refine List.ext_getElem (by simp [hlen]) fun i h1 h2 => ?_
      have hi : i < rows.length := hlen ▸ h1
      have hid : re.own[i].id = rows[i].id := by
        have := congrArg (fun ids : List Id => ids[i]?) hids
        simpa [h1, hi] using this
      have hfit := hfits re.own[i] (hrows ▸ List.mem_append_right _ (List.getElem_mem h1))
      simp [storedResult_pushRow hfit hid]
  · rcases List.mem_append.mp hm with hm | hm
    · obtain ⟨m₀, hm₀, rfl⟩ := List.mem_map.mp hm
      have hm₀' : m₀ ∈ pre ++ rows := List.mem_append_left _ hm₀
      split_ifs at hk ⊢ with hrep
      · by_cases hmove : m₀.kind = .sale ∧ re.share m₀ ≠ m₀.correctionShare
        · rw [moveShare, if_pos hmove]
          dsimp only
          rw [hshares m₀ hm₀' hmove.1, hcents' m₀ hm₀' hmove.1]
        · rw [moveShare, if_neg hmove] at hk ⊢
          have : re.share m₀ = m₀.correctionShare := by
            by_contra hne
            exact hmove ⟨hk, hne⟩
          rw [hshares m₀ hm₀' hk, this]
      · rw [hshares m₀ hm₀' hk, hkept m₀ hm₀ hrep hk]
    · obtain ⟨⟨m₀, x⟩, hmx, rfl⟩ := List.mem_map.mp hm
      have hm₀ : m₀ ∈ pre ++ rows := List.mem_append_right _ (List.of_mem_zip hmx).1
      have hk₀ : m₀.kind = .sale := hk
      change full.shares m₀.transactionId = some (toPlaces 4 (re.share m₀))
      rw [hshares m₀ hm₀ hk₀, hcents' m₀ hm₀ hk₀]

/-- A re-walk of an item from any split of its rows gives what the full walk gives; `walkItem`
splits them at its start, and stores that or answers what its guards say. -/
theorem walkItem_rewalks {l pre rows : List Movement} {r : WalkResult} (hl : LedgerOk l)
    (hsplit : l = pre ++ rows)
    (hr : walk zeroState (pre.map Movement.recompute) noLinks = .ok r) (hc : Carries pre r) :
    ∃ full re, walk zeroState (l.map Movement.recompute) noLinks = .ok full ∧
      rewalk pre rows = .ok re ∧ full.rows = pre.map storedResult ++ re.own ∧
      re.own.map (·.id) = rows.map (·.id) ∧
      (∀ m ∈ l, m.kind = .sale → full.shares m.transactionId = some (re.share m)) ∧
      ∀ itemId start trigger lockDate, pre = l.filter (fun m => m.pos < start) →
        Answers start trigger lockDate pre rows re.own full
          (walkItem itemId l start trigger lockDate) := by
  subst hsplit
  obtain ⟨full, re, hfull, hre, hrows, hids, hshares, hkept⟩ := rewalk_walk hl hr hc
  refine ⟨full, re, hfull, hre, hrows, hids, hshares, fun itemId start trigger lockDate hpre => ?_⟩
  have hrest : rows = (pre ++ rows).filter (fun m => start ≤ m.pos) := by
    have := split_at_start hl.sorted start
    rw [← hpre] at this
    exact List.append_cancel_left this
  obtain ⟨out, hout, hitem⟩ :=
    walkItem_eq itemId trigger lockDate hpre.symm hrest.symm hre
  have hcarries : Carries out.stored full :=
    hout ▸ carries_stored hl hfull hrows hids hshares hkept
  obtain ⟨hchain, hstate⟩ := Chained.stored (hrows ▸ full_chained hl hfull)
  rw [← stateOf_getLast?] at hchain hstate
  obtain ⟨hstock, hrefused⟩ := checkStock_spec trigger hchain
  have hstock' : checkStock trigger (stateOf pre.getLast?) rows re.own = .ok () ↔
      InStock trigger pre rows := by
    rw [hstock, InStock, hstate]
    simp [zeroState]
  rw [hitem]
  by_cases hopen : OpenAt start lockDate
  · rw [if_neg (openAt_iff.mp hopen)]
    rcases hcheck : checkStock trigger (stateOf pre.getLast?) rows re.own with e | ⟨⟩
    · have hnot : ¬InStock trigger pre rows := fun h => by
        rw [hstock'.mpr h] at hcheck
        cases hcheck
      obtain ⟨date, onHand, rfl⟩ := hrefused e hcheck
      simp only [error_bind]
      exact ⟨by simp [hnot], nofun, by simp [hopen], by simp [hopen, hnot], by simp [hnot]⟩
    · have hin : InStock trigger pre rows := hstock'.mp hcheck
      simp only [ok_bind]
      by_cases hfits : FitsLimits re.own
      · rw [if_neg (fitsLimits_iff.mp hfits)]
        refine ⟨by simp [hopen, hin, hfits], fun out' h => ?_, by simp [hopen], by simp [hin],
          by simp [hfits]⟩
        exact Except.ok.inj h ▸ hcarries
      · rw [if_pos (not_not.mp fun h => hfits (fitsLimits_iff.mpr h))]
        exact ⟨by simp [hfits], nofun, by simp [hopen], by simp [hin], by simp [hopen, hin, hfits]⟩
  · rw [if_pos (not_not.mp fun h => hopen (openAt_iff.mpr h))]
    exact ⟨by simp [hopen], nofun, by simp [hopen], by simp [hopen], by simp [hopen]⟩

/-- Five units sold below zero, then ten received, two of the five brought back and the rest
written down by 1.00; only the sale has been walked. -/
def shortLedger : List Movement :=
  [⟨"m1", "inv", none, "2024-01-02", 1, .sale, -5, .derived, -10, 0, 0, some 2, -5, -10, 0, 0⟩,
   ⟨"m2", "bill", none, "2024-01-03", 2, .receipt, 10, .given, 30, 0, 0, none, 0, 0, 0, 0⟩,
   ⟨"m3", "memo", some "inv", "2024-01-04", 3, .customerReturn, 2, .linked, 0, 0, 0, none, 0, 0, 0,
    0⟩,
   ⟨"m4", "adjust", none, "2024-01-05", 4, .adjustValue, 0, .given, -1, 0, 0, none, 0, 0, 0, 0⟩]

theorem shortLedger_ok : LedgerOk shortLedger where
  ids := by decide
  unlinked := by decide
  sale := by decide
  linked := by decide
  after pre m post t h ht := by
    rcases pre with _ | ⟨a, _ | ⟨b, _ | ⟨c, _ | ⟨d, pre⟩⟩⟩⟩ <;>
      simp only [shortLedger, List.nil_append, List.cons_append, List.cons.injEq] at h
    · obtain ⟨rfl, -⟩ := h
      cases ht
    · obtain ⟨-, rfl, -⟩ := h
      cases ht
    · obtain ⟨rfl, -, rfl, -⟩ := h
      exact ⟨_, List.mem_cons_self, rfl, Option.some.inj ht⟩
    · obtain ⟨-, -, -, rfl, -⟩ := h
      cases ht
    · simp at h
  sorted := by decide +kernel
  quantity := by
    simp only [shortLedger, List.forall_mem_cons, List.not_mem_nil, false_implies, implies_true,
      and_true]
    exact ⟨Places.intCast (-5), Places.intCast 10, Places.intCast 2, Places.zero⟩
  given := by
    simp only [shortLedger, List.forall_mem_cons, List.not_mem_nil, false_implies, implies_true,
      and_true]
    exact ⟨fun h => (by cases h), fun _ => Places.intCast 30, fun h => (by cases h),
      fun _ => Places.intCast (-1)⟩

/-- The document of the last row, moved to its date from just behind the sale, is walked from
there: the rows it walks are stored as the full walk has them. -/
theorem shortLedger_rewalks : ∃ full re out,
    walk zeroState (shortLedger.map Movement.recompute) noLinks = .ok full ∧
      rewalk (shortLedger.take 1) (shortLedger.drop 1) = .ok re ∧
      full.rows = (shortLedger.take 1).map storedResult ++ re.own ∧
      (∀ m ∈ shortLedger, m.kind = .sale → full.shares m.transactionId = some (re.share m)) ∧
      walkItem "item" shortLedger (Pos.mk "2024-01-02" 4 "adjust") "adjust" (some "2023-12-31") =
        .ok out ∧ Carries out.stored full := by
  have hrun : (walk zeroState ((shortLedger.take 1).map Movement.recompute) noLinks).map
      (fun r => (r.rows, r.shares "inv")) =
        .ok ((shortLedger.take 1).map storedResult, some 0) := by
    decide +kernel
  have hown : (rewalk (shortLedger.take 1) (shortLedger.drop 1)).map (·.own) =
      .ok [⟨"m2", ⟨30, -5, 0⟩, ⟨5, 15, 3⟩⟩, ⟨"m3", ⟨6, 0, 0⟩, ⟨7, 21, 3⟩⟩,
        ⟨"m4", ⟨-1, 0, 0⟩, ⟨7, 20, 2.857143⟩⟩] := by
    decide +kernel
  rcases hr : walk zeroState ((shortLedger.take 1).map Movement.recompute) noLinks with e | r
  · rw [hr] at hrun
    cases hrun
  · rw [hr] at hrun
    obtain ⟨h1, h2⟩ := Prod.mk.inj (Except.ok.inj hrun)
    have hc : Carries (shortLedger.take 1) r := by
      refine ⟨h1, fun m hm _ => ?_⟩
      obtain rfl := List.mem_singleton.mp hm
      exact h2
    obtain ⟨full, re, h3, h4, h5, -, h6, h7⟩ := walkItem_rewalks shortLedger_ok
      (List.take_append_drop 1 shortLedger).symm hr hc
    have hanswers := h7 "item" (Pos.mk "2024-01-02" 4 "adjust") "adjust" (some "2023-12-31")
      (by decide +kernel)
    rw [h4] at hown
    have howns : re.own = _ := Except.ok.inj hown
    have hstock : InStock "adjust" (shortLedger.take 1) (shortLedger.drop 1) := by
      intro a m b hsplit ht hk
      rcases a with _ | ⟨x, _ | ⟨y, _ | ⟨z, a⟩⟩⟩ <;>
        simp only [shortLedger, List.drop_succ_cons, List.drop_zero, List.nil_append,
          List.cons_append, List.cons.injEq] at hsplit
      · obtain ⟨rfl, -⟩ := hsplit
        cases hk
      · obtain ⟨-, rfl, -⟩ := hsplit
        cases hk
      · obtain ⟨rfl, rfl, rfl, -⟩ := hsplit
        decide +kernel
      · simp at hsplit
    obtain ⟨out, hout⟩ := hanswers.accepted.mpr ⟨by rw [openAt_iff]; decide +kernel, hstock,
      by rw [fitsLimits_iff, howns]; decide +kernel⟩
    exact ⟨full, re, out, h3, h4, h5, h6, hout, hanswers.stored out hout⟩

end WalkItem

end MyBooks
