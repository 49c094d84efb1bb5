import MyBooks.FsReport
import MyBooks.RowFormulas
import MyBooks.Tally

/-!
# Every formula gives what its row shows

A schedule's lines come to its total with the plug on them (`scheduleRows_recomputes`), and the
rows of a block of equity to its ending, which is where a block that follows on it begins
(`stackBlocks_recomputes`). So the formulas of every balance sheet, income statement, schedule and
equity statement of a report give what is shown (`formulas_recompute`).
-/

namespace MyBooks

/-! ## Rows in a run -/

section Runs

variable {rows more : List FsRow} {c : ℕ}

/-- What a row shows in a column, zero where it shows nothing. -/
def FsRow.amountAt (c : ℕ) (r : FsRow) : ℤ := cellAt r.values c

/-- A formula that refers to rows among the first `n`. -/
def FsRowFormula.Below (f : FsRowFormula) (n : ℕ) : Prop := ∀ t ∈ f.toTerms, t.1 < n

theorem eval_append {f : FsRowFormula} (h : f.Below rows.length) :
    f.eval (rows ++ more) c = f.eval rows c := by
  unfold FsRowFormula.eval
  refine congrArg _ (List.map_congr_left fun t ht => ?_)
  rw [List.getElem?_append_left (h t ht)]

/-- Rows after others whose formulas refer to rows among these. -/
theorem recomputes_append (h : Recomputes rows)
    (hbelow : ∀ r ∈ rows, ∀ formula ∈ r.formula, formula.Below rows.length)
    (hmore : ∀ r ∈ more, ∀ formula ∈ r.formula, ∀ (c : ℕ) v, r.values[c]? = some (some v) →
      formula.eval (rows ++ more) c = v) : Recomputes (rows ++ more) := by
  intro r hr formula hformula c v hv
  rcases List.mem_append.mp hr with hr | hr
  · rw [eval_append (hbelow r hr formula hformula)]
    exact h r hr formula hformula c v hv
  · exact hmore r hr formula hformula c v hv

theorem sum_getElem? (w : FsRow → ℤ) (pre mid post : List FsRow) :
    ((List.range' pre.length mid.length).map fun i =>
      ((pre ++ mid ++ post)[i]?).elim 0 w).sum = (mid.map w).sum := by
  refine congrArg _ (List.ext_getElem (by simp) fun i hi hi' => ?_)
  rw [List.length_map, List.length_range'] at hi
  rw [List.getElem_map, List.getElem_map, List.getElem_range', List.append_assoc, one_mul,
    List.getElem?_append_right (Nat.le_add_right _ _), Nat.add_sub_cancel_left,
    List.getElem?_append_left hi, List.getElem?_eq_getElem hi]
  rfl

theorem eval_sum (ns : List ℕ) (rows : List FsRow) (c : ℕ) : (FsRowFormula.sum ns).eval rows c =
    (ns.map fun i => (rows[i]?).elim 0 (FsRow.amountAt c)).sum := by
  rw [FsRowFormula.eval, FsRowFormula.toTerms, List.map_map]
  refine congrArg _ (List.map_congr_left fun i _ => ?_)
  exact one_mul _

theorem netCounts_of_nodup : ∀ (ns : List ℕ) (m : Entries ℕ ℤ), (m.keys ++ ns).Nodup →
    (ns.map fun n => (n, (1 : ℤˣ))).foldl (fun net t => net.add t.1 t.2) m =
      m ++ ns.map fun n => (n, (1 : ℤ))
  | [], m, _ => by simp
  | n :: ns, m, h => by
    have hn : n ∉ m.keys := fun hn => (List.nodup_append.mp h).2.2 _ hn _ List.mem_cons_self rfl
    have hadd : m.add n ((1 : ℤˣ) : ℤ) = m ++ [(n, 1)] := by
      rw [Entries.add, Entries.update, Entries.set_of_notMem hn, Entries.get?_of_notMem hn]
      rfl
    rw [List.map_cons, List.foldl_cons, hadd, netCounts_of_nodup ns]
    · simp
    · simpa [Entries.keys] using h

/-- The formula of rows that differ is their sum. -/
theorem formulaOf_nodup {ns : List ℕ} (h : ns.Nodup) :
    formulaOf (ns.map fun row => (row, 1)) = .sum ns := by
  have hnet := netCounts_of_nodup ns [] (by simpa using h)
  rw [List.nil_append] at hnet
  unfold formulaOf netCounts
  rw [hnet]
  simp [List.filter_eq_self.mpr, Function.comp_def]

end Runs

/-! ## Schedules -/

section Schedules

variable {ctx : EngineCtx} {coll : Collation} {opt : FaceOptions} {c : ℕ} {m : Balances}

/-- A line has rounded amounts in the available columns. -/
def Line.Rounded (opt : FaceOptions) (l : Line) : Prop :=
  ∀ (c : ℕ) (m : Balances), opt.bal[c]? = some (some m) → ∃ v, l.rounded[c]? = some (some v)

theorem makeLine_rounded (i : Id) (pos : ℕ) (ids : List Id) (pol : FsPolarity) :
    (makeLine ctx opt i pos ids pol).Rounded opt := by
  intro c m hm
  simp [makeLine, hm]

theorem scheduleLinesFor_rounded (i : Id) (a : FsLeadsheetAttrs) (ids : List Id)
    (pol : FsPolarity) : ∀ l ∈ scheduleLinesFor ctx coll opt i a ids pol, l.Rounded opt := by
  intro l hl
  obtain ⟨p, -, rfl⟩ := List.mem_map.mp hl
  exact makeLine_rounded i _ _ pol

theorem largestAt_lt {xs : List ℤ} {i : ℕ} (h : largestAt xs = some i) : i < xs.length := by
  obtain ⟨p, hp, rfl⟩ := Option.map_eq_some_iff.mp h
  have hmem := (List.mem_insertionSort _).mp (List.mem_of_head? hp)
  exact List.snd_lt_of_mem_zipIdx hmem

theorem largestAt_none {xs : List ℤ} (h : largestAt xs = none) : xs = [] := by
  have hhead := List.head?_eq_none_iff.mp (Option.map_eq_none_iff.mp h)
  have hlen := congrArg List.length hhead
  rw [List.length_insertionSort, List.length_zipIdx] at hlen
  exact List.length_eq_zero_iff.mp hlen

/-- What the plug of a column puts on the line at a place. -/
def plugAt (plug : Option (ℕ × ℤ)) (i : ℕ) : ℤ := plug.elim 0 fun p => if p.1 = i then p.2 else 0

theorem sum_plugAt (lines : List Line) (c : ℕ) :
    (lines.map fun l => cellAt l.rounded c).sum +
        ((List.range lines.length).map (plugAt (schedulePlug ctx lines c))).sum =
      roundTo ((lines.map fun l => cellAt l.exact c).sum) ctx.unit := by
  unfold schedulePlug
  simp only []
  split_ifs with hdiff
  · have hzero : (List.range lines.length).map (plugAt none) =
        (List.range lines.length).map fun _ => 0 := rfl
    rw [hzero, List.map_const', List.sum_replicate, nsmul_zero]
    omega
  · cases hlargest : largestAt (lines.map fun l => cellAt l.exact c) with
    | none =>
      have hnil := List.map_eq_nil_iff.mp (largestAt_none hlargest)
      subst hnil
      simp
    | some i =>
      have hi := largestAt_lt hlargest
      rw [List.length_map] at hi
      have hplug : ∀ d : ℤ, ((List.range lines.length).map (plugAt (some (i, d)))).sum = d :=
        fun d => sum_map_key d List.nodup_range (List.mem_range.mpr hi)
      rw [Option.map_some, hplug]
      omega

theorem settleSchedule_sum {lines : List Line} (hlines : ∀ l ∈ lines, l.Rounded opt)
    (hm : opt.bal[c]? = some (some m)) :
    ((settleSchedule ctx opt lines).lines.map fun l => cellAt l.rounded c).sum =
      roundTo ((lines.map fun l => cellAt l.exact c).sum) ctx.unit := by
  have hcell : ∀ p ∈ lines.zipIdx, cellAt (p.1.rounded.zipIdx.map fun q => q.1.map fun v =>
      v + plugAt (schedulePlug ctx lines q.2) p.2) c =
        cellAt p.1.rounded c + plugAt (schedulePlug ctx lines c) p.2 := by
    intro p hp
    obtain ⟨v, hv⟩ := hlines p.1 (List.fst_mem_of_mem_zipIdx hp) c m hm
    simp [cellAt, hv]
  rw [← sum_plugAt, settleSchedule, List.map_map]
  have hsplit := congrArg List.sum (List.map_congr_left hcell)
  rw [List.sum_map_add] at hsplit
  refine hsplit.trans (congrArg₂ (· + ·) ?_ ?_)
  · have hfst : lines.zipIdx.map (fun p => cellAt p.1.rounded c) =
        (lines.zipIdx.map Prod.fst).map fun l => cellAt l.rounded c := by rw [List.map_map]; rfl
    rw [hfst, List.zipIdx_map_fst]
  · have hsnd : lines.zipIdx.map (fun p => plugAt (schedulePlug ctx lines c) p.2) =
        (lines.zipIdx.map Prod.snd).map (plugAt (schedulePlug ctx lines c)) := by
      rw [List.map_map]; rfl
    rw [hsnd, List.zipIdx_map_snd, List.range_eq_range']

theorem amountAt_eq_zero {r : FsRow} (h : isZero r.values = true) : r.amountAt c = 0 := by
  rw [FsRow.amountAt, cellAt]
  cases hv : r.values[c]? with
  | none => rfl
  | some v =>
    have hzero := List.all_eq_true.mp h v (List.mem_of_getElem? hv)
    simp only [decide_eq_true_eq] at hzero
    rcases hzero with rfl | rfl <;> rfl

/-- The rows of a schedule's lines. -/
def FaceCtx.scheduleDetail (f : FaceCtx) (sb : ScheduleBuild) : List FsRow :=
  (sb.lines.filter fun l => !(f.style.hideZeroLines && isZero l.rounded && !l.plugged)).map fun l =>
    { kind := .detail, values := l.rounded }

theorem scheduleDetail_sum (f : FaceCtx) (sb : ScheduleBuild) (c : ℕ) :
    ((f.scheduleDetail sb).map (FsRow.amountAt c)).sum =
      (sb.lines.map fun l => cellAt l.rounded c).sum := by
  rw [FaceCtx.scheduleDetail, List.map_map]
  refine tally_eq_sum (w := fun l : ScheduleLine => cellAt l.rounded c) fun l _ hhidden => ?_
  simp only [Bool.not_eq_false', Bool.and_eq_true] at hhidden
  exact @amountAt_eq_zero c { kind := .detail, values := l.rounded } hhidden.1.2

theorem scheduleRows_recomputes {f : FaceCtx} {lines : List Line}
    (hlines : ∀ l ∈ lines, l.Rounded opt) :
    Recomputes (f.scheduleRows (settleSchedule ctx opt lines)) := by
  set sb := settleSchedule ctx opt lines with hsb
  intro r hr formula hformula c v hv
  have hrows : f.scheduleRows sb = f.scheduleDetail sb ++ [{
    kind := .total, values := sb.totalRounded
    formula := some (.sum (List.range (f.scheduleDetail sb).length)) }] := rfl
  rw [hrows] at hr ⊢
  rcases List.mem_append.mp hr with hr | hr
  · obtain ⟨l, -, rfl⟩ := List.mem_map.mp hr
    cases hformula
  · obtain rfl := List.mem_singleton.mp hr
    obtain rfl := Option.some.inj hformula
    have htotal : sb.totalRounded[c]? = (opt.bal[c]?).map fun m => m.map fun _ =>
        roundTo ((lines.map fun l => cellAt l.exact c).sum) ctx.unit := by
      simp [hsb, settleSchedule, Function.comp_def]
    rw [htotal] at hv
    rcases hm : opt.bal[c]? with _ | _ | m
    · simp [hm] at hv
    · simp [hm] at hv
    · rw [hm] at hv
      obtain rfl := Option.some.inj (Option.some.inj hv)
      rw [← settleSchedule_sum hlines hm, ← hsb, ← scheduleDetail_sum f, eval_sum,
        List.range_eq_range']
      exact sum_getElem? (FsRow.amountAt c) [] (f.scheduleDetail sb) _

end Schedules

/-! ## Equity -/

section Equity

variable {ctx : EngineCtx} {inp : EquityInputs} {c : ℕ}

theorem amountAt_some (kind : FsRowKind) (values : List ℤ) (formula : Option FsRowFormula) :
    FsRow.amountAt c { kind, values := values.map some, formula } = (values[c]?).getD 0 := by
  simp only [FsRow.amountAt, cellAt, List.getElem?_map]
  cases values[c]? <;> rfl

/-- The rows between beginning and ending come to all changes: rows left out are zero. -/
theorem activityRows_sum (row : (EqCell → ℤ) → List ℤ) :
    ((activityRows row).map (FsRow.amountAt c)).sum =
      ([EqCell.ni, EqCell.contrib, EqCell.dist, EqCell.other].map fun k =>
        ((row k)[c]?).getD 0).sum := by
  have hzero : ∀ k : EqCell → ℤ,
      ((row k).any fun v => v ≠ 0) = false → ((row k)[c]?).getD 0 = 0 := by
    intro k hk
    cases hv : (row k)[c]? with
    | none => rfl
    | some v =>
      have := List.any_eq_false.mp hk v (List.mem_of_getElem? hv)
      simpa using this
  rw [activityRows, List.map_cons, List.sum_cons, List.map_map, List.map_cons, List.sum_cons,
    amountAt_some]
  congr 1
  rw [← tally_eq_sum (w := fun k : EqCell → ℤ => ((row k)[c]?).getD 0) fun k _ => hzero k, tally]
  refine congrArg _ (List.map_congr_left fun k _ => ?_)
  exact amountAt_some _ _ _

/-- Rows of a roll-forward: what they show of a sum is the sum of what they show. -/
structure Adds (row : (EqCell → ℤ) → List ℤ) : Prop where
  add : ∀ (k j : EqCell → ℤ) (c : ℕ), ((row fun x => k x + j x)[c]?).getD 0 =
    ((row k)[c]?).getD 0 + ((row j)[c]?).getD 0

theorem Adds.colSum {row : (EqCell → ℤ) → List ℤ} (h : Adds row) :
    ((row EqCell.colSum)[c]?).getD 0 = ((row EqCell.begin)[c]?).getD 0 +
      ([EqCell.ni, EqCell.contrib, EqCell.dist, EqCell.other].map fun k =>
        ((row k)[c]?).getD 0).sum := by
  have hsum : row EqCell.colSum =
      row fun x => (((x.begin + x.ni) + x.contrib) + x.dist) + x.other := rfl
  rw [hsum, h.add, h.add, h.add, h.add]
  simp only [List.map_cons, List.map_nil, List.sum_cons, List.sum_nil]
  omega

theorem getD_map_add {α : Type*} (k j : α → ℤ) (xs : List α) (c : ℕ) :
    ((xs.map fun x => k x + j x)[c]?).getD 0 =
      ((xs.map k)[c]?).getD 0 + ((xs.map j)[c]?).getD 0 := by
  simp only [List.getElem?_map]
  cases xs[c]? <;> simp

theorem adds_blockRow (b : EqBlock) : Adds (blockRow b) where
  add k j c := by
    unfold blockRow
    simp only []
    split_ifs
    · simp only [List.getElem?_append, List.length_map]
      split_ifs
      · exact getD_map_add k j _ c
      · rw [List.sum_map_add]
        cases c - b.cells.length <;> simp
    · exact getD_map_add k j _ c

theorem adds_columns (blocks : List EqBlock) :
    Adds fun k => blocks.map fun b => (b.cells.map k).sum where
  add k j c := by
    simp only [List.sum_map_add]
    exact getD_map_add _ _ blocks c

/-- Every column ends at what it comes to. -/
def EqBlock.Closes (b : EqBlock) : Prop := ∀ x ∈ b.cells, x.ending = x.colSum

theorem blockRow_ending {b : EqBlock} (h : b.Closes) :
    blockRow b EqCell.ending = blockRow b EqCell.colSum := by
  rw [blockRow, blockRow, List.map_congr_left h]

theorem activityRows_formula {row : (EqCell → ℤ) → List ℤ} {r : FsRow} (h : r ∈ activityRows row) :
    r.formula = none := by
  rcases List.mem_cons.mp h with rfl | h
  · rfl
  · obtain ⟨k, -, rfl⟩ := List.mem_map.mp h
    rfl

theorem endRow_formula (values : List ℤ) (first n : ℕ) :
    endRow values first (first + n) =
      { kind := .total, values := values.map some
        formula := some (.sum (List.range' first n)) } := by
  rw [endRow, Nat.add_sub_cancel_left, formulaOf_nodup List.nodup_range']

/-- A row of nothing but amounts, one that the rows of a block start with. -/
def beginRow (values : List ℤ) : FsRow := { kind := .total, values := values.map some }

section EndRow

variable {row : (EqCell → ℤ) → List ℤ} {pre : List FsRow} {start : FsRow}

/-- The ending row under its beginning and the rows between. -/
def endingOf (pre : List FsRow) (start : FsRow) (row : (EqCell → ℤ) → List ℤ) : FsRow :=
  endRow (row EqCell.ending) pre.length (pre.length + (start :: activityRows row).length)

theorem endingOf_eval (h : Adds row) (hend : row EqCell.ending = row EqCell.colSum)
    (hstart : start.values = (row EqCell.begin).map some) (post : List FsRow) :
    ∀ formula ∈ (endingOf pre start row).formula, ∀ (c : ℕ) v,
      (endingOf pre start row).values[c]? = some (some v) →
        formula.eval (pre ++ (start :: activityRows row) ++ post) c = v := by
  intro formula hformula c v hv
  rw [endingOf, endRow_formula] at hformula hv
  obtain rfl := Option.some.inj hformula
  have hbegin : start.amountAt c = ((row EqCell.begin)[c]?).getD 0 := by
    rw [FsRow.amountAt, hstart]
    exact amountAt_some .total _ none
  rw [eval_sum, sum_getElem?, List.map_cons, List.sum_cons, hbegin, activityRows_sum, ← h.colSum,
    ← hend]
  simp only [List.getElem?_map] at hv
  cases hc : (row EqCell.ending)[c]? with
  | none => simp [hc] at hv
  | some x => simpa [hc] using hv

theorem endingOf_below : ∀ formula ∈ (endingOf pre start row).formula,
    formula.Below (pre ++ (start :: activityRows row) ++ [endingOf pre start row]).length := by
  intro formula hformula
  rw [endingOf, endRow_formula] at hformula
  obtain rfl := Option.some.inj hformula
  intro t ht
  obtain ⟨i, hi, rfl⟩ := List.mem_map.mp ht
  have hlt := (List.mem_range'_1.mp hi).2
  simp only [List.length_append]
  omega

end EndRow

theorem columnRows_recomputes {blocks : List EqBlock} (h : ∀ b ∈ blocks, b.Closes) :
    Recomputes (columnRows blocks) := by
  set row : (EqCell → ℤ) → List ℤ := fun k => blocks.map fun b => (b.cells.map k).sum
  have hend : row EqCell.ending = row EqCell.colSum := List.map_congr_left fun b hb => by
    rw [List.map_congr_left (h b hb)]
  have hrows : columnRows blocks = (beginRow (row EqCell.begin) :: activityRows row) ++
      [endingOf [] (beginRow (row EqCell.begin)) row] := by
    rw [endingOf, List.length_nil, Nat.zero_add]
    rfl
  rw [hrows]
  intro r hr formula hformula c v hv
  rcases List.mem_append.mp hr with hr | hr
  · have hnone : r.formula = none := by
      rcases List.mem_cons.mp hr with rfl | hr
      · rfl
      · exact activityRows_formula hr
    rw [hnone] at hformula
    cases hformula
  · obtain rfl := List.mem_singleton.mp hr
    exact endingOf_eval (adds_columns blocks) hend rfl _ formula hformula c v hv

/-- The rows of the blocks so far: their formulas give what is shown, and refer to rows before, and
the last row shows where the last block ended. -/
structure Stacked (several : Prop) [Decidable several] (rows : List FsRow)
    (prevEnd : Option (List ℤ)) : Prop where
  recomputes : Recomputes rows
  below : ∀ r ∈ rows, ∀ formula ∈ r.formula, formula.Below rows.length
  last : ∀ ends ∈ prevEnd, ∃ pre r, rows = pre ++ [r] ∧
    r.values = (if several then ends ++ [ends.sum] else ends).map some

/-- Rows without formulas and an ending row after the rows so far. -/
theorem Stacked.append {several : Prop} [Decidable several] {rows : List FsRow}
    {prevEnd : Option (List ℤ)} (h : Stacked several rows prevEnd) {more pre : List FsRow}
    {start : FsRow} {b : EqBlock} (hb : b.Closes) (hseveral : several ↔ b.others ≠ [])
    (hmore : ∀ r ∈ more, r.formula = none)
    (hrows : rows ++ more = pre ++ (start :: activityRows (blockRow b)))
    (hstart : start.values = (blockRow b EqCell.begin).map some) :
    Stacked several (rows ++ more ++ [endingOf pre start (blockRow b)]) (some b.endings) where
  recomputes := by
    rw [List.append_assoc]
    refine recomputes_append h.recomputes h.below fun r hr formula hformula c v hv => ?_
    rcases List.mem_append.mp hr with hr | hr
    · rw [hmore r hr] at hformula
      cases hformula
    · obtain rfl := List.mem_singleton.mp hr
      rw [← List.append_assoc, hrows]
      exact endingOf_eval (adds_blockRow b) (blockRow_ending hb) hstart _ formula hformula c v hv
  below := by
    intro r hr formula hformula
    rcases List.mem_append.mp hr with hr | hr
    · rcases List.mem_append.mp hr with hr | hr
      · refine fun t ht => (h.below r hr formula hformula t ht).trans_le ?_
        simp only [List.length_append]
        omega
      · rw [hmore r hr] at hformula
        cases hformula
    · obtain rfl := List.mem_singleton.mp hr
      rw [hrows]
      exact endingOf_below formula hformula
  last := by
    intro ends hends
    obtain rfl := Option.some.inj hends
    refine ⟨rows ++ more, _, rfl, ?_⟩
    rw [endingOf, endRow_formula, blockRow]
    simp only [hseveral]
    rfl

theorem stackBlock_stacked {several : Prop} [Decidable several] {rows : List FsRow}
    {prevEnd : Option (List ℤ)} (h : Stacked several rows prevEnd) {b : EqBlock} (hb : b.Closes)
    (hseveral : several ↔ b.others ≠ [])
    (hbegin : b.block.contiguous = true → ∃ ends ∈ prevEnd, b.cells.map EqCell.begin = ends) :
    Stacked several (stackBlock rows b) (some b.endings) := by
  have hafter : ∀ gap : List FsRow, (∀ r ∈ gap, r.formula = none) →
      Stacked several (rows ++ gap ++ [beginRow (blockRow b EqCell.begin)] ++
        activityRows (blockRow b) ++ [endRow (blockRow b EqCell.ending) (rows ++ gap).length
          (rows ++ gap ++ [beginRow (blockRow b EqCell.begin)] ++
            activityRows (blockRow b)).length]) (some b.endings) := by
    intro gap hgap
    have hmore : ∀ r ∈ gap ++ beginRow (blockRow b EqCell.begin) :: activityRows (blockRow b),
        r.formula = none := by
      simp only [List.forall_mem_append, List.forall_mem_cons]
      exact ⟨hgap, rfl, fun r hr => activityRows_formula hr⟩
    have hrow : Stacked several _ _ := h.append hb hseveral hmore (List.append_assoc _ _ _).symm rfl
    simpa [endingOf, add_assoc] using hrow
  unfold stackBlock
  simp only []
  split_ifs with hcontig hempty
  · obtain ⟨ends, hends, rfl⟩ := hbegin hcontig
    obtain ⟨pre, start, rfl, hstart⟩ := h.last _ hends
    have hvalues : start.values = (blockRow b EqCell.begin).map some := by
      rw [hstart, blockRow]
      simp only [hseveral]
    have hrow : Stacked several _ _ := h.append hb hseveral
      (fun r (hr : r ∈ activityRows (blockRow b)) => activityRows_formula hr)
      (List.append_assoc pre [start] _) hvalues
    simpa [endingOf] using hrow
  · exact hafter [_] (by simp)
  · simpa [beginRow] using hafter [] (by simp)

theorem close_begin (e r : EqCell) (target : ℤ) : (e.close r target).begin = r.begin := by
  unfold EqCell.close EqCell.plugInto
  simp only []
  split_ifs <;> rfl

theorem rollBlock_closes (cols : List EqCol × EqCol) (b : Block) (prevEnd : Option (List ℤ)) :
    (rollBlock ctx inp cols b prevEnd).Closes := by
  intro x hx
  rcases List.mem_append.mp hx with hx | hx
  · obtain ⟨p, -, rfl⟩ := List.mem_map.mp hx
    rfl
  · obtain rfl := List.mem_singleton.mp hx
    rfl

theorem rollBlock_length (cols : List EqCol × EqCol) (b : Block) (prevEnd : Option (List ℤ)) :
    (rollBlock ctx inp cols b prevEnd).others.length = cols.1.length := by
  simp [rollBlock]

/-- A block that follows on the one before begins where that one ended. -/
theorem rollBlock_begin {cols : List EqCol × EqCol} {b : Block} {ends : List ℤ}
    (hlen : ends.length = cols.1.length + 1) (hb : b.contiguous = true) :
    (rollBlock ctx inp cols b (some ends)).cells.map EqCell.begin = ends := by
  have hothers : (rollBlock ctx inp cols b (some ends)).others.map EqCell.begin =
      ends.take cols.1.length := by
    refine List.ext_getElem (by simp [rollBlock_length, hlen]) fun i hi hi' => ?_
    have hi : i < ends.length := by
      rw [List.length_take] at hi'
      omega
    simp [rollBlock, close_begin, roundedCell, hb, hi]
  have hfold : (rollBlock ctx inp cols b (some ends)).fold.begin = ends[cols.1.length] := by
    have hi : cols.1.length < ends.length := by omega
    simp [rollBlock, close_begin, roundedCell, hb, hi]
  rw [EqBlock.cells, List.map_append, hothers, List.map_singleton, hfold,
    List.take_append_getElem, ← hlen, List.take_length]

theorem stackBlocks_recomputes {cols : List EqCol × EqCol} : ∀ {bs : List Block} {rows : List FsRow}
    {prevEnd : Option (List ℤ)}, Stacked (cols.1 ≠ []) rows prevEnd →
      (∀ ends ∈ prevEnd, ends.length = cols.1.length + 1) →
        (∀ b ∈ bs.head?, b.contiguous = true → prevEnd ≠ none) →
          Recomputes ((rollBlocks ctx inp cols bs prevEnd).foldl stackBlock rows)
  | [], _, _, h, _, _ => h.recomputes
  | b :: bs, rows, prevEnd, h, hlen, hhead => by
    rw [rollBlocks]
    simp only [List.foldl_cons]
    set r := rollBlock ctx inp cols b prevEnd
    have hothers : r.others.length = cols.1.length := rollBlock_length cols b prevEnd
    have hseveral : cols.1 ≠ [] ↔ r.others ≠ [] := by
      rw [← List.length_pos_iff, ← List.length_pos_iff, hothers]
    have hstep := stackBlock_stacked h (rollBlock_closes cols b prevEnd) hseveral fun hcontig => by
      obtain ⟨ends, hends⟩ := Option.ne_none_iff_exists'.mp (hhead b rfl hcontig)
      exact ⟨ends, hends, by rw [hends]; exact rollBlock_begin (hlen ends hends) hcontig⟩
    refine stackBlocks_recomputes hstep (fun ends hends => ?_) fun _ _ _ => Option.some_ne_none _
    obtain rfl := Option.some.inj hends
    simp [EqBlock.endings, EqBlock.cells, hothers]

theorem rollBlocks_mem {cols : List EqCol × EqCol} : ∀ {bs : List Block}
    {prevEnd : Option (List ℤ)}, ∀ r ∈ rollBlocks ctx inp cols bs prevEnd,
      ∃ b prevEnd, r = rollBlock ctx inp cols b prevEnd
  | [], _ => by simp [rollBlocks]
  | b :: bs, prevEnd => by
    rw [rollBlocks]
    exact List.forall_mem_cons.mpr ⟨⟨b, prevEnd, rfl⟩, rollBlocks_mem⟩

theorem equityBlocks_head : ∀ b ∈ (equityBlocks ctx).head?, b.contiguous = false := by
  have h : ∀ (ranges : List FsPlanRange) (blocks : List Block),
      (∀ b ∈ blocks.head?, b.contiguous = false) →
        ∀ b ∈ (ranges.foldl (fun (blocks : List Block) range =>
          if (ctx.bsClosed range.stop).isNone then blocks
          else blocks ++ [⟨range, fsAddDays range.start (-1), blocks.getLast?.any fun prev =>
            prev.range.stop = fsAddDays range.start (-1)⟩]) blocks).head?,
              b.contiguous = false := by
    intro ranges
    induction ranges with
    | nil => exact fun _ h => h
    | cons range ranges ih =>
      intro blocks hblocks
      refine ih _ ?_
      beta_reduce
      split_ifs
      · exact hblocks
      · cases blocks with
        | nil =>
          intro b hb
          obtain rfl := Option.some.inj hb
          rfl
        | cons b bs => exact hblocks
  exact h _ [] (by simp)

theorem equityRows_recomputes {coll : Collation} {cfg cfg₂ : FsEquityConfig}
    {rf : EquityRollforward} (h : equityRollforward ctx coll inp cfg = some rf) :
    Recomputes (equityRows ctx cfg₂ rf) := by
  unfold equityRollforward at h
  simp only [] at h
  split_ifs at h
  obtain rfl := Option.some.inj h
  unfold equityRows
  simp only []
  split_ifs
  · refine columnRows_recomputes fun b hb => ?_
    obtain ⟨range, -, hfind⟩ := List.mem_filterMap.mp hb
    obtain ⟨b', prevEnd, rfl⟩ := rollBlocks_mem b (List.mem_of_find?_eq_some hfind)
    exact rollBlock_closes _ b' prevEnd
  · refine stackBlocks_recomputes ⟨?_, ?_, ?_⟩ ?_ fun b hb hcontig => ?_
    · intro r hr
      cases hr
    · simp
    · simp
    · simp
    · rw [equityBlocks_head b hb] at hcontig
      cases hcontig

end Equity

/-! ## The report -/

section Report

variable {ctx : EngineCtx} {coll : Collation} {opt : FaceOptions} {schedulesOn : Bool}
  {nodeAccounts : Entries Id (List Id)}

/-- A schedule as settled from its lines. -/
def ScheduleBuild.Settled (ctx : EngineCtx) (opt : FaceOptions) (sb : ScheduleBuild) : Prop :=
  ∃ lines, (∀ l ∈ lines, l.Rounded opt) ∧ sb = settleSchedule ctx opt lines

theorem leadsheetLines_settled (i : Id) (a : FsLeadsheetAttrs) (pol : FsPolarity) :
    ∀ sb ∈ (leadsheetLines ctx coll opt schedulesOn nodeAccounts i a pol).2,
      sb.Settled ctx opt := by
  intro sb hsb
  unfold leadsheetLines at hsb
  simp only [] at hsb
  cases hd : a.display with
  | singleLine | detail => simp [hd] at hsb
  | summaryWithSchedule =>
    cases schedulesOn with
    | false => simp [hd] at hsb
    | true =>
      simp only [hd, if_true] at hsb
      exact ⟨_, scheduleLinesFor_rounded i a _ pol, (Option.some.inj hsb).symm⟩

mutual

theorem build_settled : ∀ (n : FsNode) (top : Bool) (parent : Option FsPolarity),
    ∀ e ∈ (build ctx coll opt schedulesOn nodeAccounts n top parent).nodes,
      ∀ sb ∈ e.schedule, sb.Settled ctx opt
  | .sectionNode i a children, top, parent => by
    rw [build, ENode.nodes]
    exact List.forall_mem_cons.mpr ⟨by simp [ENode.schedule], buildAll_settled children _⟩
  | .leadsheetNode i a, top, parent => by
    rw [build, ENode.nodes, ENode.allNodes]
    simp only [List.forall_mem_singleton, ENode.schedule]
    exact leadsheetLines_settled i a _
  | .accountNode .., _, _ | .totalNode .., _, _ | .textNode _, _, _ | .blankNode _, _, _
  | .pageBreakNode _, _, _ => by
    simp [build, ENode.nodes, ENode.allNodes, ENode.schedule]

theorem buildAll_settled : ∀ (ns : List FsNode) (pol : FsPolarity),
    ∀ e ∈ ENode.allNodes (buildAll ctx coll opt schedulesOn nodeAccounts ns pol),
      ∀ sb ∈ e.schedule, sb.Settled ctx opt
  | [], _ => fun e he => by cases he
  | n :: ns, pol => by
    rw [buildAll, ENode.allNodes]
    exact List.forall_mem_append.mpr ⟨build_settled n _ _, buildAll_settled ns pol⟩

end

theorem buildRoots_settled (body : List FsNode) :
    ∀ e ∈ ENode.allNodes (buildRoots ctx coll opt schedulesOn nodeAccounts body),
      ∀ sb ∈ e.schedule, sb.Settled ctx opt := by
  unfold buildRoots
  induction body with
  | nil => exact fun e he => by cases he
  | cons n ns ih =>
    rw [List.map_cons, ENode.allNodes]
    exact List.forall_mem_append.mpr ⟨build_settled n _ _, ih⟩

variable (coll) (settings : FsReportSettings) (style : FsNumberStyle) (source : FsSourceData)
  (layout : FsLayout)

/-- A statement's face in the making. -/
def faceCtxOf (ctx : EngineCtx) (st : FsStatementConfig) (opt : FaceOptions) : FaceCtx :=
  faceCtx ctx coll layout.schedules st.plugs st.body opt

def faceRootsOf (ctx : EngineCtx) (st : FsStatementConfig) (opt : FaceOptions) : List ENode :=
  faceRoots ctx coll layout.schedules st.body opt

/-- The net income that the report's income statement is anchored to. -/
def reportTargets : List (Option ℤ) :=
  let ctx := buildContext settings style source
  let bs := (configOf layout .balanceSheet).map fun st => faceOf coll layout ctx st (bsOptions ctx)
  if settings.tagId.isSome then []
  else (equityRollforward ctx coll ⟨[], equityTargetOf ctx bs⟩
    ((configOf layout .equity).elim {} (·.equity))).elim [] (niTargets ctx)

/-- Each of the report's two faces is laid out with ids that differ and totals that do not refer
back to themselves, and no formula counts a row more than once. -/
structure FormulasCountOnce : Prop where
  ids : ∀ st ∈ layout.statements, ((FsNode.allNodes st.body).map FsNode.id).Nodup
  acyclic : ∀ st ∈ layout.statements, Acyclic st.body
  bs : ∀ st ∈ configOf layout .balanceSheet,
    let ctx := buildContext settings style source
    (faceCtxOf coll layout ctx st (bsOptions ctx)).RowsOnce
      (faceRootsOf coll layout ctx st (bsOptions ctx))
  is : ∀ st ∈ configOf layout .incomeStatement,
    let ctx := buildContext settings style source
    let opt := isOptions ctx (reportTargets coll settings style source layout)
    (faceCtxOf coll layout ctx st opt).RowsOnce (faceRootsOf coll layout ctx st opt)

def FsRendered.Recomputes : FsRendered → Prop
  | .face _ rows | .equity _ rows => MyBooks.Recomputes rows
  | .cashFlows _ => True

variable {settings style source layout}

theorem faceOf_recomputes {st : FsStatementConfig}
    (hids : ((FsNode.allNodes st.body).map FsNode.id).Nodup) (hacyclic : Acyclic st.body)
    (honce : (faceCtxOf coll layout ctx st opt).RowsOnce (faceRootsOf coll layout ctx st opt)) :
    Recomputes (faceOf coll layout ctx st opt).rows ∧
      ∀ rows ∈ (faceOf coll layout ctx st opt).schedules, Recomputes rows := by
  obtain ⟨rank, hranked⟩ := @ranked_buildRoots ctx coll opt layout.schedules
    (claims ctx opt.scope st.body).nodeAccounts st.body hids hacyclic
  refine ⟨rowsOf_recomputes (f := faceCtxOf coll layout ctx st opt) rfl hranked honce, ?_⟩
  intro rows hrows
  obtain ⟨e, he, hsome⟩ := List.mem_filterMap.mp hrows
  obtain ⟨sb, hsb, rfl⟩ := Option.map_eq_some_iff.mp hsome
  obtain ⟨lines, hlines, rfl⟩ := buildRoots_settled st.body e he sb hsb
  exact scheduleRows_recomputes hlines

theorem configOf_mem {kind : FsStatementKind} {st : FsStatementConfig}
    (h : configOf layout kind = some st) : st ∈ layout.statements := List.mem_of_find?_eq_some h

variable (settings style source layout)

theorem faces_mem {face : FsStatementConfig × ℕ → Option FaceResult} {P : FaceResult → Prop}
    (hface : ∀ p, ∀ r ∈ face p, P r) : ∀ (sts : List (FsStatementConfig × ℕ))
      (m : Entries Id FaceResult), (∀ i, ∀ r ∈ m.get? i, P r) →
        ∀ i, ∀ r ∈ (sts.foldl (fun m p =>
          if p.1.enabled then (face p).elim m fun r => m.set p.1.id r else m) m).get? i, P r
  | [], _, h => h
  | p :: sts, m, h => by
    refine faces_mem hface sts _ ?_
    beta_reduce
    split_ifs
    · cases hp : face p with
      | none => exact h
      | some r =>
        intro i r' hr'
        rw [Option.elim_some, Entries.get?_set] at hr'
        split_ifs at hr'
        · exact Option.some.inj hr' ▸ hface p r hp
        · exact h i r' hr'
    · exact h

/-- What the statements of a report are made of. -/
inductive Rendered (ctx : EngineCtx) (coll : Collation) (report : FsReport) :
    FsRendered × List (List FsRow) → Prop
  | face (kind : FsStatementKind) (f : FaceResult) (hf : f ∈ report.bs ∨ f ∈ report.is) :
    Rendered ctx coll report (.face kind f.rows, f.schedules)
  | equity (cfg : FsEquityConfig) (rf : EquityRollforward) (hrf : equityRollforward ctx coll
      ⟨niRoundedOf ctx report.is, equityTargetOf ctx report.bs⟩ cfg = some rf) :
    Rendered ctx coll report (.equity rf (equityRows ctx cfg rf), [])
  | cashFlows (id : Id) (detailByAccount : Bool) (st : CashFlowStatement)
    (hst : buildCashFlows ctx id detailByAccount
      ⟨niRoundedOf ctx report.is, cashTargetOf ctx report.bs⟩ = some st) :
    Rendered ctx coll report (.cashFlows st, [])

theorem report_rendered :
    let ctx := buildContext settings style source
    let report := computeFsReport coll settings style source layout
    (∀ st ∈ report.statements, ∃ schedules, Rendered ctx coll report (st, schedules)) ∧
      ∀ rows ∈ report.schedules, ∃ st schedules, Rendered ctx coll report (st, schedules) ∧
        rows ∈ schedules := by
  unfold computeFsReport
  extract_lets ctx bsCfg isCfg eqCfg bs equityTarget cashTarget tagged targets is niRounded faces
    render rendered report
  have hfaces : ∀ i, ∀ r ∈ faces.get? i, r ∈ report.bs ∨ r ∈ report.is := by
    refine faces_mem (fun p r hr => ?_) _ [] (by simp)
    split_ifs at hr
    · exact .inl hr
    · exact .inr hr
    · cases hr
  have hrender : ∀ st, ∀ p ∈ render st, Rendered ctx coll report (p.1, p.2.1) := by
    intro st p hp
    simp only [render] at hp
    cases hkind : st.kind with
    | balanceSheet | incomeStatement =>
      rw [hkind] at hp
      cases hface : faces.get? st.id with
      | none => simp [hface] at hp
      | some f =>
        simp only [hface, Option.elim_some, List.mem_singleton] at hp
        subst hp
        exact .face _ f (hfaces _ f hface)
    | equity =>
      rw [hkind] at hp
      simp only [] at hp
      split_ifs at hp
      · cases hp
      · cases hrf : equityRollforward ctx coll ⟨niRounded, equityTarget⟩ st.equity with
        | none => simp [hrf] at hp
        | some rf =>
          simp only [hrf, Option.elim_some, List.mem_singleton] at hp
          subst hp
          exact .equity st.equity rf hrf
    | cashFlows =>
      rw [hkind] at hp
      simp only [] at hp
      split_ifs at hp
      · cases hp
      · cases hcf : buildCashFlows ctx st.id st.detailByAccount ⟨niRounded, cashTarget⟩ with
        | none => simp [hcf] at hp
        | some cf =>
          simp only [hcf, Option.elim_some, List.mem_singleton] at hp
          subst hp
          exact .cashFlows st.id st.detailByAccount cf hcf
  have hrendered : ∀ p ∈ rendered, Rendered ctx coll report (p.1, p.2.1) := by
    intro p hp
    obtain ⟨st, -, hp⟩ := List.mem_flatMap.mp hp
    exact hrender st p hp
  constructor
  · intro st hst
    obtain ⟨p, hp, rfl⟩ := List.mem_map.mp hst
    exact ⟨_, hrendered p hp⟩
  · intro rows hrows
    simp only [report] at hrows
    split_ifs at hrows
    · obtain ⟨p, hp, hmem⟩ := List.mem_flatMap.mp hrows
      exact ⟨_, _, hrendered p hp, hmem⟩
    · cases hrows

theorem formulas_recompute (h : FormulasCountOnce coll settings style source layout) :
    let report := computeFsReport coll settings style source layout
    (∀ st ∈ report.statements, st.Recomputes) ∧ ∀ rows ∈ report.schedules, Recomputes rows := by
  intro report
  obtain ⟨hstatements, hschedules⟩ := report_rendered coll settings style source layout
  have hfaces : ∀ f, f ∈ report.bs ∨ f ∈ report.is →
      Recomputes f.rows ∧ ∀ rows ∈ f.schedules, Recomputes rows := by
    rintro f (hf | hf)
    · obtain ⟨st, hst, rfl⟩ := Option.map_eq_some_iff.mp hf
      exact faceOf_recomputes coll (h.ids st (configOf_mem hst)) (h.acyclic st (configOf_mem hst))
        (h.bs st hst)
    · obtain ⟨st, hst, rfl⟩ := Option.map_eq_some_iff.mp hf
      exact faceOf_recomputes coll (h.ids st (configOf_mem hst)) (h.acyclic st (configOf_mem hst))
        (h.is st hst)
  constructor
  · intro st hst
    obtain ⟨schedules, hrendered⟩ := hstatements st hst
    cases hrendered with
    | face kind f hf => exact (hfaces f hf).1
    | equity cfg rf hrf => exact equityRows_recomputes hrf
    | cashFlows id detailByAccount cf hcf => trivial
  · intro rows hrows
    obtain ⟨st, schedules, hrendered, hmem⟩ := hschedules rows hrows
    cases hrendered with
    | face kind f hf => exact (hfaces f hf).2 rows hmem
    | equity cfg rf hrf => cases hmem
    | cashFlows id detailByAccount cf hcf => cases hmem

end Report

section Bank

def bankSettings : FsReportSettings where
  periodEnd := 0
  period := none
  framework := .gaap
  columns := ⟨.single, false, false, false⟩
  tagId := none

/-- 100.49 in the bank, all of it earned before. -/
def bankSource : FsSourceData where
  entityKind := .corporation
  accounts := [⟨"bank", none, "Bank", .asset, some "bank", none⟩,
    ⟨"re", none, "Retained earnings", .equity, some "retained_earnings", none⟩]
  groupings := []
  fyStartMonth := 1
  workpapers := [(0, { balances := [("bank", 100.49), ("re", -100.49)] })]
  reAccountId := "re"
  equityRoles := []
  cashFlowOverrides := []

/-- A balance sheet with the difference of its sides, and an equity statement. -/
def bankLayout : FsLayout where
  schedules := true
  statements := [
    { id := "bs", kind := .balanceSheet
      body := [
        .sectionNode "assets" { caption := "ASSETS", role := some .totalAssets }
          [.accountNode "bank" { refs := [⟨some "bank", none⟩] }],
        .sectionNode "equity" { caption := "EQUITY" }
          [.accountNode "re" { refs := [⟨some "re", none⟩] }],
        .totalNode "net" { terms := [⟨"assets", 1⟩, ⟨"equity", -1⟩] }] },
    { id := "eq", kind := .equity }]

instance (f : FaceCtx) (roots : List ENode) : Decidable (f.RowsOnce roots) :=
  inferInstanceAs (Decidable (∀ r ∈ FaceCtx.visible (f.emitAll roots).1,
    ∀ ts ∈ f.rowTerms (FaceCtx.visible (f.emitAll roots).1) r, RowsOnce ts))

theorem formulas_recompute_bank :
    let report := computeFsReport ⟨compare, compare⟩ bankSettings ⟨true, true⟩ bankSource bankLayout
    (∀ st ∈ report.statements, st.Recomputes) ∧ ∀ rows ∈ report.schedules, Recomputes rows :=
  formulas_recompute ⟨compare, compare⟩ bankSettings ⟨true, true⟩ bankSource bankLayout
    { ids := by decide
      acyclic := fun st hst => ⟨["bank", "re", "assets", "equity", "net"].idxOf, by
        revert st
        decide⟩
      bs := by decide +kernel
      is := by decide +kernel }

/-- A total that adds the bank twice shows twice the bank, and its formula gives the bank. -/
example :
    let rows := (faceOf ⟨compare, compare⟩ bankLayout bankCtx
      { id := "bs", kind := .balanceSheet, body := bankTwice } bankOptions).rows
    (rows.map fun r => (r.amountAt 0, r.formula.map fun f => f.eval rows 0)) =
      [(1010000, none), (2020000, some 1010000)] := by
  decide +kernel

end Bank

end MyBooks
