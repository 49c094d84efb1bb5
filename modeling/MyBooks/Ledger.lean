import MyBooks.WalkSim
import MyBooks.Costing

/-!
# What the stored rows of an item say

`LedgerOk` is what the store promises of an item's live rows. The full walk over the rows before a
point leaves for each sale what its stored row and the stored returns say of it (`Mirror`), and the
walk start that `walkSeed` picks is a row of them with nothing sold short (`walkSeed_split`).
-/

namespace MyBooks

/-- The live rows of one item in position order. -/
structure LedgerOk (l : List Movement) : Prop where
  ids : (l.map (·.id)).Nodup
  /-- A document has one row that returns no sale. -/
  unlinked : ((l.filter (·.sourceTransactionId = none)).map (·.transactionId)).Nodup
  sale : ∀ m ∈ l, m.kind = .sale → m.sourceTransactionId = none ∧ m.quantity < 0
  linked : ∀ m ∈ l, m.valueMode = .linked ↔ m.sourceTransactionId ≠ none
  after : ∀ pre m post t, l = pre ++ m :: post → m.sourceTransactionId = some t →
    ∃ s ∈ pre, s.kind = .sale ∧ s.transactionId = t
  sorted : l.Pairwise (fun a b => a.pos ≤ b.pos)
  quantity : ∀ m ∈ l, Places 4 m.quantity
  given : ∀ m ∈ l, m.valueMode = .given → Cents m.value

/-- The result of a row as it stands stored. -/
def storedResult (m : Movement) : RowResult := ⟨m.id, (storedFigures m).1, (storedFigures m).2⟩

/-- The rows carry the figures, running states and correction shares of the walk `r` over them. -/
structure Carries (l : List Movement) (r : WalkResult) : Prop where
  rows : r.rows = l.map storedResult
  shares : ∀ m ∈ l, m.kind = .sale → r.shares m.transactionId = some m.correctionShare

section Ledger

variable {l : List Movement}

/-- A document sells the item in one row. -/
theorem LedgerOk.sale_unique (hl : LedgerOk l) {m s : Movement} (hm : m ∈ l) (hs : s ∈ l)
    (hms : m.sourceTransactionId = none) (hss : s.sourceTransactionId = none)
    (ht : m.transactionId = s.transactionId) : m = s :=
  List.inj_on_of_nodup_map hl.unlinked (by simp [hm, hms]) (by simp [hs, hss]) ht

theorem LedgerOk.left {a b : List Movement} (hl : LedgerOk (a ++ b)) : LedgerOk a where
  ids := by
    have := hl.ids
    rw [List.map_append] at this
    exact this.of_append_left
  unlinked := by
    have := hl.unlinked
    rw [List.filter_append, List.map_append] at this
    exact this.of_append_left
  sale m hm := hl.sale m (List.mem_append_left _ hm)
  linked m hm := hl.linked m (List.mem_append_left _ hm)
  after pre m post t h := hl.after pre m (post ++ b) t (by rw [h, List.append_assoc]; rfl)
  sorted := hl.sorted.sublist (List.sublist_append_left a b)
  quantity m hm := hl.quantity m (List.mem_append_left _ hm)
  given m hm := hl.given m (List.mem_append_left _ hm)

theorem LedgerOk.not_mem {a b : List Movement} {m : Movement} (hl : LedgerOk (a ++ m :: b)) :
    m ∉ a := by
  intro hm
  have := hl.ids
  rw [List.map_append, List.nodup_append] at this
  exact this.2.2 _ (List.mem_map_of_mem hm) _ (List.mem_map_of_mem List.mem_cons_self) rfl

/-- The sale before a row is another document's. -/
theorem LedgerOk.no_sale_before {a b : List Movement} {m s : Movement}
    (hl : LedgerOk (a ++ m :: b)) (hm : m.sourceTransactionId = none) (hs : s ∈ a)
    (hsale : s.kind = .sale) : s.transactionId ≠ m.transactionId := by
  intro ht
  have hsl : s ∈ a ++ m :: b := List.mem_append_left _ hs
  have hml : m ∈ a ++ m :: b := List.mem_append_right _ List.mem_cons_self
  have := hl.sale_unique hsl hml (hl.sale s hsl hsale).1 hm ht
  exact hl.not_mem (this ▸ hs)

theorem recompute_registers {m : Movement} (hm : m.kind = .sale → m.quantity < 0) (t : Id) :
    m.recompute.registers = some t ↔ m.kind = .sale ∧ m.transactionId = t := by
  by_cases hk : m.kind = .sale
  · have : m.recompute.registers = some m.transactionId := by
      simp [WalkRow.registers, WalkRow.saleId, Movement.recompute, toWalk, hk, hm hk]
    simp [this, hk]
  · have : m.recompute.registers = none := by
      simp [WalkRow.registers, WalkRow.saleId, Movement.recompute, toWalk, hk]
    simp [this, hk]

theorem LedgerOk.registers (hl : LedgerOk l) {m : Movement} (hm : m ∈ l) (t : Id) :
    m.recompute.registers = some t ↔ m.kind = .sale ∧ m.transactionId = t :=
  recompute_registers (fun hk => (hl.sale m hm hk).2) t

theorem LinksKnown.of_movements : ∀ (ms : List Movement) {known : Id → Prop},
    (∀ a m b, ms = a ++ m :: b → m.valueMode = .linked → ∃ t, m.sourceTransactionId = some t ∧
      (known t ∨ ∃ s ∈ a, s.recompute.registers = some t)) →
    LinksKnown known (ms.map Movement.recompute)
  | [], _, _ => trivial
  | m :: ms, known, h => by
    refine ⟨fun hm => ?_, LinksKnown.of_movements ms fun a m' b hsplit hm => ?_⟩
    · obtain ⟨t, ht, hk | ⟨s, hs, -⟩⟩ := h [] m ms rfl hm
      · exact ⟨t, ht, hk⟩
      · cases hs
    · obtain ⟨t, ht, hk⟩ := h (m :: a) m' b (by rw [hsplit]; rfl) hm
      refine ⟨t, ht, ?_⟩
      rcases hk with hk | ⟨s, hs, hreg⟩
      · exact Or.inl (Or.inl hk)
      · rcases List.mem_cons.mp hs with rfl | hs
        · exact Or.inl (Or.inr hreg)
        · exact Or.inr ⟨s, hs, hreg⟩

theorem SalesFresh.of_movements : ∀ (ms : List Movement) {known : Id → Prop},
    (∀ a m b, ms = a ++ m :: b → ∀ t, m.recompute.registers = some t →
      ¬known t ∧ ∀ s ∈ a, s.recompute.registers ≠ some t) →
    SalesFresh known (ms.map Movement.recompute)
  | [], _, _ => trivial
  | m :: ms, known, h => by
    refine ⟨fun t ht => (h [] m ms rfl t ht).1, SalesFresh.of_movements ms ?_⟩
    intro a m' b hsplit t ht
    obtain ⟨h1, h2⟩ := h (m :: a) m' b (by rw [hsplit]; rfl) t ht
    exact ⟨not_or.mpr ⟨h1, h2 m List.mem_cons_self⟩, fun s hs => h2 s (List.mem_cons_of_mem _ hs)⟩

/-- In the full walk each linked return comes after its sale, and no sale comes twice. -/
theorem LedgerOk.linksKnown (hl : LedgerOk l) :
    LinksKnown (fun _ => False) (l.map Movement.recompute) := by
  refine LinksKnown.of_movements l fun a m b hsplit hm => ?_
  have hml : m ∈ l := hsplit ▸ List.mem_append_right _ List.mem_cons_self
  obtain ⟨t, ht⟩ := Option.ne_none_iff_exists'.mp ((hl.linked m hml).mp hm)
  obtain ⟨s, hs, hk, hst⟩ := hl.after a m b t hsplit ht
  have hsl : s ∈ l := hsplit ▸ List.mem_append_left _ hs
  exact ⟨t, ht, Or.inr ⟨s, hs, (hl.registers hsl t).mpr ⟨hk, hst⟩⟩⟩

theorem LedgerOk.salesFresh {a b : List Movement} (hl : LedgerOk (a ++ b)) {known : Id → Prop}
    (hk : ∀ t, known t → ∃ s ∈ a, s.kind = .sale ∧ s.transactionId = t) :
    SalesFresh known (b.map Movement.recompute) := by
  refine SalesFresh.of_movements b fun b₁ m b₂ hsplit t ht => ?_
  rw [hsplit, ← List.append_assoc] at hl
  have hml : m ∈ (a ++ b₁) ++ m :: b₂ := List.mem_append_right _ List.mem_cons_self
  obtain ⟨hkind, rfl⟩ := (hl.registers hml t).mp ht
  have hno : ∀ s ∈ a ++ b₁, s.kind = .sale → s.transactionId ≠ m.transactionId :=
    fun s hs => hl.no_sale_before (hl.sale m hml hkind).1 hs
  refine ⟨fun h => ?_, fun s hs hreg => ?_⟩
  · obtain ⟨s, hs, hsk, hst⟩ := hk _ h
    exact hno s (List.mem_append_left _ hs) hsk hst
  · have hsl : s ∈ (a ++ b₁) ++ m :: b₂ :=
      List.mem_append_left _ (List.mem_append_right _ hs)
    obtain ⟨hsk, hst⟩ := (hl.registers hsl _).mp hreg
    exact hno s (List.mem_append_right _ hs) hsk hst

end Ledger

section Mirror

/-- The returns of the sale `t` among the rows. -/
def backOf (l : List Movement) (t : Id) : List Movement :=
  l.filter (fun m => m.sourceTransactionId = some t)

theorem backOf_concat (l : List Movement) (m : Movement) (t : Id) :
    backOf (l ++ [m]) t = backOf l t ++ if m.sourceTransactionId = some t then [m] else [] := by
  by_cases h : m.sourceTransactionId = some t <;> simp [backOf, h]

/-- The loop after the rows `l` knows of each sale what its row and its returns say. -/
structure Mirror (l : List Movement) (w : WalkLoop) : Prop where
  loop : LoopOk w
  known : ∀ t, (w.sales t).isSome → ∃ s ∈ l, s.kind = .sale ∧ s.transactionId = t
  sale : ∀ m ∈ l, m.kind = .sale → ∃ y, w.shares m.transactionId = some y ∧
    w.sales m.transactionId = some ⟨-m.value + y, -m.quantity,
      ((backOf l m.transactionId).map (·.quantity)).sum,
      ((backOf l m.transactionId).map (·.value)).sum⟩

theorem recompute_fixedOk (q : Dec) (ms : List Movement) :
    FixedOk q (ms.map Movement.recompute) := by
  induction ms generalizing q with
  | nil => trivial
  | cons m ms ih => exact ⟨fun _ _ h => (by cases h), ih _⟩

/-- What a row's units taken back do to the sale `t`. -/
theorem rowStep_sale {w : WalkLoop} {m : Movement} {fig : RowFigures} {after : WalkState}
    {sales : IdMap SaleLink} {sale : SaleLink} {t : Id}
    (hlink : m.valueMode = .linked ↔ m.sourceTransactionId ≠ none)
    (hs : w.sales t = some sale) (h : rowStep w m.recompute = .ok (fig, after, sales)) :
    sales t = some (if m.sourceTransactionId = some t then
      { sale with n := sale.n + m.quantity, b := sale.b + fig.value } else sale) := by
  rcases rowStep_recomputed rfl h with ⟨hm, -, rfl⟩ | ⟨_, value, hm, -, -, hstep, rfl⟩
  · have hnone : m.sourceTransactionId = none := by
      by_contra hne
      exact hm (hlink.mpr hne)
    rw [hnone, if_neg (by simp), hs]
  · have hval : value = fig.value := pure_eq_ok.mp (stepRow_inv hstep).1
    obtain ⟨t', ht'⟩ := Option.ne_none_iff_exists'.mp (hlink.mp hm)
    have hsrc : m.recompute.sourceId = some t' := ht'
    rw [hsrc, ht', takeBack]
    by_cases htt : t' = t
    · subst htt
      simp only [hs, IdMap.set_self, if_true, ← hval]
      rfl
    · rw [if_neg (by simpa using htt)]
      rcases hs' : w.sales t' with _ | sale'
      · simpa only [hs'] using hs
      · simpa only [hs', IdMap.set_of_ne _ _ (Ne.symm htt)] using hs

theorem Mirror.step {l rest : List Movement} {m : Movement} {w w' : WalkLoop}
    (hl : LedgerOk (l ++ m :: rest)) (hw : Mirror l w) (h : walkRow w m.recompute = .ok w')
    (hout : w'.out = w.out ++ [storedResult m]) : Mirror (l ++ [m]) w' := by
  have hml : m ∈ l ++ m :: rest := List.mem_append_right _ List.mem_cons_self
  obtain ⟨hloop, -⟩ := walkRow_cures hw.loop (fun _ _ hf => by cases hf) h
  have hknown : ∀ t, (w'.sales t).isSome → ∃ s ∈ l ++ [m], s.kind = .sale ∧ s.transactionId = t := by
    intro t ht
    rcases (walkRow_isSome h t).mp ht with ht | ht
    · obtain ⟨s, hs, hst⟩ := hw.known t ht
      exact ⟨s, List.mem_append_left _ hs, hst⟩
    · exact ⟨m, by simp, (hl.registers hml t).mp ht⟩
  refine ⟨hloop, hknown, fun m' hm' hk => ?_⟩
  obtain ⟨fig, after, sales, short, takes, hstep, htrack, rfl⟩ := walkRow_eq_ok.mp h
  have hfig : fig.value = m.value := by
    have := (List.cons.inj (List.append_cancel_left hout)).1
    exact congrArg (fun x : RowResult => x.fig.value) this
  rcases List.mem_append.mp hm' with hm' | hm'
  · -- a sale before the row: the row takes back from it and attributes to it
    have hreg : m.recompute.registers ≠ some m'.transactionId := fun ht => by
      obtain ⟨hmk, hid⟩ := (hl.registers hml _).mp ht
      exact hl.no_sale_before (hl.sale m hml hmk).1 hm' hk hid.symm
    obtain ⟨y, hy, hsale⟩ := hw.sale m' hm' hk
    have hsale' := rowStep_sale (hl.linked m hml) hsale hstep
    refine ⟨y + sharesTo takes (some m'.transactionId), ?_, ?_⟩
    · dsimp only
      rw [attributeShares_apply, registerShare_of_ne hreg, hy]
      rfl
    · dsimp only
      rw [attributeSales_apply, registerSale_of_ne hreg, hsale', Option.map_some, backOf_concat]
      by_cases hsrc : m.sourceTransactionId = some m'.transactionId
      · simp [hsrc, hfig, add_assoc]
      · simp [hsrc, add_assoc]
  · -- the row is the sale itself, the first of it
    obtain rfl := List.mem_singleton.mp hm'
    obtain ⟨hsrc, hneg⟩ := hl.sale m' hml hk
    have hreg : m'.recompute.registers = some m'.transactionId :=
      (hl.registers hml _).mpr ⟨hk, rfl⟩
    have htakes : takes = [] := by
      rw [trackShort, if_pos (show m'.recompute.quantity < 0 from hneg), pure_eq_ok] at htrack
      exact (Prod.mk.inj htrack).2.symm
    have hnone : sales m'.transactionId = none := by
      have := mt (rowStep_isSome hstep m'.transactionId).mp fun hsome => by
        obtain ⟨s, hs, hsk, hst⟩ := hw.known _ hsome
        exact hl.no_sale_before hsrc hs hsk hst
      simpa using this
    have hback : backOf (l ++ [m']) m'.transactionId = [] := by
      rw [backOf, List.filter_eq_nil_iff]
      intro x hx
      have : x.sourceTransactionId ≠ some m'.transactionId := fun hxt => by
        rcases List.mem_append.mp hx with hx | hx
        · obtain ⟨a, b, rfl⟩ := List.append_of_mem hx
          obtain ⟨s, hs, hsk, hst⟩ := hl.after a x (b ++ m' :: rest) _ (by simp) hxt
          exact hl.no_sale_before hsrc (List.mem_append_left _ hs) hsk hst
        · rw [List.mem_singleton.mp hx, hsrc] at hxt
          cases hxt
      simpa using this
    refine ⟨0, ?_, ?_⟩
    · simp [htakes, registerShare, hreg]
    · simp only [htakes, List.foldl_nil, registerSale, hreg, IdMap.set_self, hnone, hback, hfig]
      simp [Movement.recompute, toWalk]

theorem Mirror.run : ∀ (ms : List Movement) {l rest : List Movement} {w w' : WalkLoop},
    LedgerOk (l ++ (ms ++ rest)) → Mirror l w →
    walkRows w (ms.map Movement.recompute) = .ok w' →
    w'.out = w.out ++ ms.map storedResult → Mirror (l ++ ms) w'
  | [], l, rest, w, w', _, hw, h, _ => by
    rw [List.append_nil]
    exact foldlM_nil_ok.mp h ▸ hw
  | m :: ms, l, rest, w, w', hl, hw, h, hout => by
    obtain ⟨w₁, h1, h2⟩ := foldlM_cons_ok.mp h
    obtain ⟨hx, hxs⟩ := walkRow_out_cons h1 h2 hout
    have hl' : LedgerOk ((l ++ [m]) ++ (ms ++ rest)) := by simpa using hl
    simpa using Mirror.run ms hl' (hw.step hl h1 hx) h2 hxs

theorem Mirror.start (seed : WalkState) (hq : 0 ≤ seed.q) : Mirror [] (walkStart seed noLinks) where
  loop := walkStart_loopOk hq noLinks
  known := fun t h => by cases h
  sale := fun m hm => by cases hm

end Mirror

section Seed

/-- The last element with a property, and what follows it. -/
theorem filter_getLast?_eq_some {α : Type*} {p : α → Bool} : ∀ {l : List α} {c : α},
    (l.filter p).getLast? = some c → ∃ a b, l = a ++ c :: b ∧ p c ∧ ∀ x ∈ b, p x = false := by
  intro l c h
  obtain ⟨ys, hys⟩ := List.getLast?_eq_some_iff.mp h
  obtain ⟨a, b, rfl, ha, hb⟩ := List.filter_eq_append_iff.mp hys
  obtain ⟨a', b', rfl, h1, h2, h3⟩ := List.filter_eq_cons_iff.mp hb
  refine ⟨a ++ a', b', by simp, h2, fun x hx => ?_⟩
  have := List.filter_eq_nil_iff.mp h3 x hx
  simpa using this

/-- The rows replayed are the last of those before the start, and the walk is seeded from the row
before them, which is not below zero. -/
theorem walkSeed_split {pre : List Movement} (hl : LedgerOk pre) :
    ∃ a, pre = a ++ (walkSeed pre).2 ∧ (walkSeed pre).1 = stateOf a.getLast? ∧
      0 ≤ (stateOf a.getLast?).q := by
  unfold walkSeed
  by_cases hq : (stateOf pre.getLast?).q < 0
  · simp only [if_pos hq]
    rcases hc : (pre.filter (fun m => 0 ≤ m.runningQty)).getLast? with _ | c
    · simp only [hc]
      exact ⟨[], rfl, rfl, le_rfl⟩
    · simp only [hc]
      obtain ⟨a, b, hsplit, hcq, -⟩ := filter_getLast?_eq_some hc
      have hcq' : 0 ≤ c.runningQty := by simpa using hcq
      refine ⟨a ++ [c], ?_, by simp, by simpa [stateOf, storedFigures] using hcq'⟩
      have hb : b.filter (fun m => c.pos ≤ m.pos) = b := by
        rw [List.filter_eq_self]
        intro m hm
        have hs := hl.sorted
        rw [hsplit, List.pairwise_append] at hs
        simpa using (List.pairwise_cons.mp hs.2.1).1 m hm
      have hbefore : pre.filter (fun m => c.pos ≤ m.pos) =
          a.filter (fun m => c.pos ≤ m.pos) ++ c :: b := by
        rw [hsplit, List.filter_append, List.filter_cons_of_pos (by simp), hb]
      have hidx : (a.filter (fun m => c.pos ≤ m.pos) ++ c :: b).findIdx (fun m => m.id = c.id) =
          (a.filter (fun m => c.pos ≤ m.pos)).length := by
        have hids := hl.ids
        rw [hsplit, List.map_append, List.nodup_append] at hids
        rw [List.findIdx_append, List.findIdx_eq_length_of_false, if_neg (lt_irrefl _)]
        · simp [List.findIdx_cons]
        · intro x hx
          have hxa : x ∈ a := List.mem_of_mem_filter hx
          simpa using hids.2.2 _ (List.mem_map_of_mem hxa) _
            (List.mem_map_of_mem List.mem_cons_self)
      rw [hbefore, hidx, List.drop_append, List.drop_of_length_le (by omega)]
      simp [hsplit]
  · simp only [if_neg hq]
    exact ⟨pre, by simp, rfl, not_lt.mp hq⟩

end Seed

end MyBooks
