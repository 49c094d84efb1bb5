import MyBooks.CashFlowRows

/-!
# The statements of a report agree

A block of equity ends in total at the balance sheet's rounded equity and begins where the one
before ended, with the income statement's net income in between (`rollBlock_articulates`). The cash
flows start from the same net income and go from the balance sheet's cash to its cash. So the
statements of a report agree with one another (`statements_articulate`).
-/

namespace MyBooks

/-! ## Equity -/

section Equity

variable {ctx : EngineCtx} {inp : EquityInputs}

/-- A block among those of a roll-forward: every column ends at what it comes to, the net income is
the given one, and the endings are the balance sheet's equity where it has one. -/
structure EqBlock.Articulates (ni : Entries (ℤ × ℤ) (Option ℤ)) (equity : Entries ℤ (Option ℤ))
    (b : EqBlock) : Prop where
  closes : b.Closes
  netIncome : ∀ n, ni.get? (rangeId b.block.range) = some (some n) → (b.cells.map EqCell.ni).sum = n
  ties : ∀ t, equity.get? b.block.range.stop = some (some t) → b.endings.sum = t

theorem close_ni (e r : EqCell) (target : ℤ) : (e.close r target).ni = r.ni := by
  unfold EqCell.close EqCell.plugInto
  simp only []
  split_ifs <;> rfl

theorem plugInto_colSum (e r : EqCell) (diff : ℤ) :
    (e.plugInto r diff).colSum = r.colSum + diff := by
  unfold EqCell.plugInto
  split_ifs
  all_goals
    simp only [EqCell.colSum]
    ring

theorem close_ending (e r : EqCell) (target : ℤ) : (e.close r target).ending = target := by
  unfold EqCell.close
  simp only []
  split_ifs with h
  · exact h
  · rw [plugInto_colSum]
    ring

theorem rollBlock_articulates (cols : List EqCol × EqCol) (b : Block) (prevEnd : Option (List ℤ)) :
    (rollBlock ctx inp cols b prevEnd).Articulates inp.niRounded inp.equityTarget where
  closes := rollBlock_closes cols b prevEnd
  netIncome n hn := by
    have hothers : (rollBlock ctx inp cols b prevEnd).others.map EqCell.ni =
        (rollBlock ctx inp cols b prevEnd).others.map fun _ => 0 := by
      refine List.map_congr_left fun x hx => ?_
      obtain ⟨p, hp, rfl⟩ := List.mem_map.mp hx
      obtain ⟨q, -, rfl⟩ := List.mem_map.mp hp
      exact close_ni _ _ _
    have hfold : (rollBlock ctx inp cols b prevEnd).fold.ni = n := by
      rw [rollBlock] at hn ⊢
      simp only [close_ni]
      simp [hn]
    rw [EqBlock.cells, List.map_append, List.sum_append, hothers, List.map_const',
      List.sum_replicate, nsmul_zero, zero_add, List.map_singleton, List.sum_singleton, hfold]
  ties t ht := by
    rw [EqBlock.endings, EqBlock.cells, List.map_append, List.sum_append, List.map_singleton,
      List.sum_singleton]
    have hfold : (rollBlock ctx inp cols b prevEnd).fold.ending =
        t - ((rollBlock ctx inp cols b prevEnd).others.map EqCell.ending).sum := by
      rw [rollBlock] at ht ⊢
      simp only [close_ending]
      simp [ht]
    rw [hfold]
    ring

theorem rollBlocks_blocks (cols : List EqCol × EqCol) : ∀ (bs : List Block)
    (prevEnd : Option (List ℤ)), (rollBlocks ctx inp cols bs prevEnd).map EqBlock.block = bs
  | [], _ => rfl
  | b :: bs, prevEnd => by
    rw [rollBlocks, List.map_cons, rollBlocks_blocks cols bs]
    rfl

/-- Each block that follows on the one before begins where that one ended. -/
theorem rollBlocks_follow {cols : List EqCol × EqCol} : ∀ {bs : List Block}
    {prevEnd : Option (List ℤ)}, (∀ ends ∈ prevEnd, ends.length = cols.1.length + 1) →
      ∀ pre b b' post, rollBlocks ctx inp cols bs prevEnd = pre ++ b :: b' :: post →
        b'.block.contiguous = true → b'.cells.map EqCell.begin = b.endings
  | [], _, _, pre, _, _, _, h, _ => by simp [rollBlocks] at h
  | x :: bs, prevEnd, hlen, pre, b, b', post, h, hcontig => by
    rw [rollBlocks] at h
    have hends : (rollBlock ctx inp cols x prevEnd).endings.length = cols.1.length + 1 := by
      simp [EqBlock.endings, EqBlock.cells, rollBlock_length]
    cases pre with
    | nil =>
      obtain ⟨rfl, hrest⟩ := List.cons.inj h
      cases bs with
      | nil => simp [rollBlocks] at hrest
      | cons y bs =>
        rw [rollBlocks] at hrest
        obtain ⟨rfl, -⟩ := List.cons.inj hrest
        exact rollBlock_begin hends hcontig
    | cons p pre =>
      obtain ⟨-, hrest⟩ := List.cons.inj h
      exact rollBlocks_follow (fun ends he => Option.some.inj he ▸ hends) pre b b' post hrest
        hcontig

/-- Blocks follow on one another where their dates do. -/
theorem equityBlocks_contiguous : ∀ pre b b' post, equityBlocks ctx = pre ++ b :: b' :: post →
    (b'.contiguous = true ↔ b.range.stop = b'.openDate) := by
  unfold equityBlocks
  refine List.foldlRecOn (motive := fun blocks : List Block => ∀ pre b b' post,
    blocks = pre ++ b :: b' :: post → (b'.contiguous = true ↔ b.range.stop = b'.openDate)) _ _
    (fun pre b _ _ h =>
      absurd h.symm (List.append_ne_nil_of_right_ne_nil pre (List.cons_ne_nil b _)))
    fun blocks hblocks range _ => ?_
  split_ifs
  · exact hblocks
  · intro pre b b' post h
    rcases List.eq_nil_or_concat post with rfl | ⟨post', z, rfl⟩
    · have hlast : blocks ++ [_] = (pre ++ [b]) ++ [b'] := h.trans (by simp)
      obtain ⟨rfl, hnew⟩ := List.append_inj' hlast rfl
      obtain rfl := (List.cons.inj hnew).1
      simp
    · have hinit : blocks ++ [_] = (pre ++ b :: b' :: post') ++ [z] := h.trans (by simp)
      exact hblocks pre b b' post' (List.append_inj' hinit rfl).1

/-- The blocks of a roll-forward articulate, and those that meet take over the endings. -/
structure EquityRollforward.Articulates (ni : Entries (ℤ × ℤ) (Option ℤ))
    (equity : Entries ℤ (Option ℤ)) (rf : EquityRollforward) : Prop where
  blocks : ∀ b ∈ rf.blocks, b.Articulates ni equity
  follow : ∀ pre b b' post, rf.blocks = pre ++ b :: b' :: post →
    b.block.range.stop = b'.block.openDate → b'.cells.map EqCell.begin = b.endings

theorem equityRollforward_articulates {coll : Collation} {cfg : FsEquityConfig}
    {rf : EquityRollforward} (h : equityRollforward ctx coll inp cfg = some rf) :
    rf.Articulates inp.niRounded inp.equityTarget := by
  unfold equityRollforward at h
  simp only [] at h
  split_ifs at h
  obtain rfl := Option.some.inj h
  constructor
  · intro b hb
    obtain ⟨b', prevEnd, rfl⟩ := rollBlocks_mem b hb
    exact rollBlock_articulates _ b' prevEnd
  · intro pre b b' post hsplit hmeet
    dsimp only at hsplit
    have hblocks := @rollBlocks_blocks ctx inp (equityCols ctx coll cfg
      (equityIds ctx (equityBlocks ctx))) (equityBlocks ctx) none
    rw [hsplit, List.map_append, List.map_cons, List.map_cons] at hblocks
    exact rollBlocks_follow (by simp) pre b b' post hsplit
      ((equityBlocks_contiguous _ _ _ _ hblocks.symm).mpr hmeet)

end Equity

/-! ## Cash flows -/

section CashFlows

open CashFlowStatement

/-- A range's figures start from the income statement's net income and go from the balance sheet's
cash to its cash, wherever these are known. -/
structure CfFigures.Articulates (ni : Entries (ℤ × ℤ) (Option ℤ)) (cash : Entries ℤ (Option ℤ))
    (y : FsPlanRange) (f : CfFigures) : Prop where
  netIncome : ∀ n, ni.get? (rangeId y) = some (some n) → f.ni = n
  cashBegin : ∀ t, cash.get? (fsAddDays y.start (-1)) = some (some t) → f.cashBegin = t
  cashEnd : ∀ t, cash.get? y.stop = some (some t) → f.cashEnd = t

/-- Unless a check names a difference without a line, the sections come to the change in cash, and
every formula gives what its row shows. -/
structure CashFlowStatement.Articulates (ni : Entries (ℤ × ℤ) (Option ℤ))
    (cash : Entries ℤ (Option ℤ)) (st : CashFlowStatement) : Prop where
  figures : ∀ p ∈ st.years.zip st.figures, ∀ f ∈ p.2, f.Articulates ni cash p.1
  sections : (∀ c ∈ st.checks, c.code ≠ .roundingUnplaced) → ∀ f, some f ∈ st.figures →
    (st.sections.map fun s => sectionTotal s f).sum = f.netChange
  rows : (∀ c ∈ st.checks, c.code ≠ .roundingUnplaced) → Recomputes st.rows

theorem settle_given (unit : ℤ) (exacts : List (FsCashFlowClass × ℤ)) (ni cashBegin cashEnd : ℤ) :
    (CfFigures.settle unit exacts ni cashBegin cashEnd).ni = ni ∧
      (CfFigures.settle unit exacts ni cashBegin cashEnd).cashBegin = cashBegin ∧
        (CfFigures.settle unit exacts ni cashBegin cashEnd).cashEnd = cashEnd := by
  unfold CfFigures.settle
  simp only []
  split_ifs
  · exact ⟨rfl, rfl, rfl⟩
  · split <;> exact ⟨rfl, rfl, rfl⟩

theorem buildCashFlows_articulates {ctx : EngineCtx} {id : Id} {detailByAccount : Bool}
    {inp : CashFlowInputs} {st : CashFlowStatement}
    (h : buildCashFlows ctx id detailByAccount inp = some st) :
    st.Articulates inp.niRounded inp.cashTarget := by
  have hmade := buildCashFlows_made h
  refine ⟨?_, fun hchecks f hf => hmade.sections_add hf hchecks, cashRows_recompute hmade⟩
  unfold buildCashFlows at h
  extract_lets ranges years lines excluded unreconciled figures unplaced classes part at h
  split_ifs at h
  obtain rfl := Option.some.inj h
  intro p hp f hf
  obtain ⟨i, hi⟩ := List.getElem?_of_mem hp
  obtain ⟨hy, hfigure⟩ := List.getElem?_zip_eq_some.mp hi
  simp only [figures, List.getElem?_map, List.getElem?_zipIdx, Option.map_eq_some_iff] at hfigure
  obtain ⟨q, ⟨r, hr, rfl⟩, hq⟩ := hfigure
  obtain ⟨hrange, -⟩ := List.getElem?_zip_eq_some.mp hr
  have hy : r.1 = p.1 := Option.some.inj (hrange.symm.trans hy)
  rw [← hq] at hf
  obtain ⟨year, -, rfl⟩ := Option.map_eq_some_iff.mp hf
  obtain ⟨hni, hbegin, hend⟩ := settle_given ctx.unit
    (lines.map fun l => (l.2.cls, l.2.exact (0 + i)))
    (((inp.niRounded.get? (rangeId r.1)).bind fun v => v).getD (roundTo (-year.niSigned) ctx.unit))
    (((inp.cashTarget.get? (fsAddDays r.1.start (-1))).bind fun v => v).getD
      (roundTo year.cashBegin ctx.unit))
    (((inp.cashTarget.get? r.1.stop).bind fun v => v).getD (roundTo year.cashEnd ctx.unit))
  constructor
  · intro n hn
    rw [← hy] at hn
    exact hni.trans (by simp [hn])
  · intro t ht
    rw [← hy] at ht
    exact hbegin.trans (by simp [ht])
  · intro t ht
    rw [← hy] at ht
    exact hend.trans (by simp [ht])

end CashFlows

/-! ## The balance sheet -/

section Faces

variable {ctx : EngineCtx} {coll : Collation} {schedulesOn : Bool} {plugs : Entries Id Id}
  {body : List FsNode} {opt : FaceOptions}

/-- A node that no line counts in more than once, net of signs. -/
def FaceCtx.LinesOnce (f : FaceCtx) (e : ENode) : Prop := ∀ l ∈ contrib f.index e, |l.2| ≤ 1

/-- The two sides are equal as shown where they are equal exactly, unless a difference found no
line. -/
def FaceCtx.Balances (f : FaceCtx) : Prop :=
  ∀ a le, f.byRole .totalAssets = some a → f.byRole .totalLiabilitiesEquity = some le →
    f.LinesOnce a → f.LinesOnce le → ∀ c, (f.settled c).unplaced = [] →
      f.exactOf a c = f.exactOf le c → f.valueOf a c = f.valueOf le c

theorem byRole_mem {f : FaceCtx} {r : FsNodeRole} {e : ENode} (h : f.byRole r = some e) :
    e ∈ f.index.map Prod.snd ∧ e.node.role = some r := by
  have hmem := List.mem_filter.mp (List.mem_of_getLast? h)
  exact ⟨hmem.1, of_decide_eq_true hmem.2⟩

theorem faceCtx_hits {c : ℕ} {r : FsNodeRole} {e : ENode}
    (he : (faceCtx ctx coll schedulesOn plugs body opt).byRole r = some e) (hr : r ≠ .netIncome)
    (honce : (faceCtx ctx coll schedulesOn plugs body opt).LinesOnce e)
    (hplaced : ((faceCtx ctx coll schedulesOn plugs body opt).settled c).unplaced = []) :
    (faceCtx ctx coll schedulesOn plugs body opt).valueOf e c =
      roundTo ((faceCtx ctx coll schedulesOn plugs body opt).exactOf e c) ctx.unit := by
  obtain ⟨hmem, hrole⟩ := byRole_mem he
  set roots := faceRoots ctx coll schedulesOn body opt
  have hanchored : e.node.anchored = true := by
    revert hrole
    cases e.node with
    | sectionNode i a children | totalNode i a =>
      intro hrole
      change a.role = some r at hrole
      simp [FsNode.anchored, hrole]
    | _ => exact fun hrole => by cases hrole
  have hanchor : e ∈ anchors (contributions (indexOf roots)) (indexOf roots) :=
    (List.mem_insertionSort _).mpr (List.mem_filter.mpr ⟨hmem, hanchored⟩)
  obtain ⟨pre, post, hsplit⟩ := List.append_of_mem hanchor
  have hhit := (settleColumn_hit ctx plugs opt (contributions (indexOf roots)) c roots hsplit).mpr
    fun _ ⟨line, sign⟩ hl => ?_
  · rcases hhit with hvalue | hunplaced
    · rw [← anchorTarget_eq] at hvalue
      refine hvalue.trans ?_
      rw [anchorTarget, hrole, if_neg fun h => hr (Option.some.inj h)]
      rfl
    · change e.id ∈ ((faceCtx ctx coll schedulesOn plugs body opt).settled c).unplaced.map Prod.fst
        at hunplaced
      rw [hplaced] at hunplaced
      cases hunplaced
  · obtain ⟨hl, hne, -⟩ := plugLine_mem hl
    have hle : |sign| ≤ 1 := honce (line, sign) hl
    exact le_antisymm hle (Int.one_le_abs hne)

theorem faceCtx_balances : (faceCtx ctx coll schedulesOn plugs body opt).Balances := by
  intro a le ha hle hoa hole c hplaced hexact
  rw [faceCtx_hits ha (by decide) hoa hplaced, faceCtx_hits hle (by decide) hole hplaced, hexact]

end Faces

/-! ## The report -/

section Report

/-- A statement agrees with the net income, the equity and the cash that the faces show. -/
def FsRendered.Articulates (ni : Entries (ℤ × ℤ) (Option ℤ)) (equity cash : Entries ℤ (Option ℤ)) :
    FsRendered → Prop
  | .face _ _ => True
  | .equity rf _ => rf.Articulates ni equity
  | .cashFlows st => st.Articulates ni cash

/-- The equity statement and the cash flows of a report agree with its faces, and the sides of the
balance sheet with each other. -/
structure FsReport.Articulates (coll : Collation) (layout : FsLayout) (ctx : EngineCtx)
    (report : FsReport) : Prop where
  statements : ∀ st ∈ report.statements, st.Articulates (niRoundedOf ctx report.is)
    (equityTargetOf ctx report.bs) (cashTargetOf ctx report.bs)
  sides : ∀ st ∈ configOf layout .balanceSheet,
    (faceCtxOf coll layout ctx st (bsOptions ctx)).Balances

theorem statements_articulate (coll : Collation) (settings : FsReportSettings)
    (style : FsNumberStyle) (source : FsSourceData) (layout : FsLayout) :
    FsReport.Articulates coll layout (buildContext settings style source)
      (computeFsReport coll settings style source layout) := by
  refine ⟨fun st hst => ?_, fun st _ => faceCtx_balances⟩
  obtain ⟨schedules, hrendered⟩ := (report_rendered coll settings style source layout).1 st hst
  cases hrendered with
  | face kind f hf => trivial
  | equity cfg rf hrf => exact equityRollforward_articulates hrf
  | cashFlows id detailByAccount cf hcf => exact buildCashFlows_articulates hcf

end Report

end MyBooks
