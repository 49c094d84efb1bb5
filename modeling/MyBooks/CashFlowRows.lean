import MyBooks.FormulasRecompute

/-!
# The rows of the cash flows

Every line has a class that one of the sections adds up, and a line that is left out is zero, so the
sections come to the change in cash where the rounding difference of the range found a line
(`sections_add`). Then the formulas of the rows give what they show (`cashRows_recompute`).
-/

namespace MyBooks

section Settle

variable {unit : ℤ} {exacts : List (FsCashFlowClass × ℤ)} {ni cashBegin cashEnd : ℤ}

theorem cfPlugLine_lt {diff : ℤ} {i : ℕ} (h : cfPlugLine unit exacts diff = some i) :
    i < exacts.length := by
  obtain ⟨p, hp, rfl⟩ := Option.map_eq_some_iff.mp h
  have hmem := (List.mem_insertionSort _).mp (List.mem_of_head? hp)
  have hall : p ∈ exacts.zipIdx := by
    split_ifs at hmem
    · exact List.mem_of_mem_filter (List.mem_of_mem_filter hmem)
    · exact List.mem_of_mem_filter hmem
  exact List.snd_lt_of_mem_zipIdx hall

theorem sum_modify (d : ℤ) : ∀ {xs : List ℤ} {i : ℕ}, i < xs.length →
    (xs.modify i (· + d)).sum = xs.sum + d
  | x :: xs, 0, _ => by
    rw [List.modify_zero_cons, List.sum_cons, List.sum_cons]
    ring
  | x :: xs, i + 1, h => by
    rw [List.modify_succ_cons, List.sum_cons, List.sum_cons, sum_modify d (by simpa using h)]
    ring

/-- A range's lines and its net income come to the change in cash, unless the difference found no
line. -/
theorem settle_adds (h : (CfFigures.settle unit exacts ni cashBegin cashEnd).unplaced = none) :
    let f := CfFigures.settle unit exacts ni cashBegin cashEnd
    f.ni + f.lines.sum = f.netChange := by
  unfold CfFigures.settle CfFigures.netChange at *
  simp only [] at *
  split_ifs at * with hdiff
  · simp only []
    omega
  · cases hplug : cfPlugLine unit exacts
      (cashEnd - cashBegin - (ni + (exacts.map fun l => roundTo l.2 unit).sum)) with
    | none => simp [hplug] at h
    | some i =>
      have hi := cfPlugLine_lt hplug
      simp only []
      rw [sum_modify _ (by simpa using hi)]
      ring

theorem settle_length : (CfFigures.settle unit exacts ni cashBegin cashEnd).lines.length =
    exacts.length := by
  unfold CfFigures.settle
  simp only []
  split_ifs
  · simp
  · split <;> simp

end Settle

section Classes

variable {ctx : EngineCtx}

/-- The classes that a section adds up. -/
def sectionClasses : List FsCashFlowClass :=
  [.noncashAdjustment, .operating, .investing, .financing]

theorem mem_sectionClasses {cls : FsCashFlowClass} (h : cls ≠ .cash) (h' : cls ≠ .excluded) :
    cls ∈ sectionClasses := by
  cases cls <;> simp_all [sectionClasses]

theorem step_effects (opening close : Balances) {s : CfYear} {id : Id}
    (h : ∀ e ∈ s.effects, ctx.cfClass e.1 ∈ sectionClasses) :
    ∀ e ∈ (s.step ctx opening close id).effects, ctx.cfClass e.1 ∈ sectionClasses := by
  unfold CfYear.step
  simp only []
  generalize -(if id = ctx.source.reAccountId then _ else _) = effect
  split_ifs with htype hcash hzero hexcluded
  · exact h
  · exact h
  · exact h
  · intro e he
    rcases Entries.mem_set he with he | rfl
    · exact h e he
    · exact mem_sectionClasses hcash hexcluded
  · exact h

/-- Only accounts of those classes have effects. -/
theorem cashYear_effects {y : FsPlanRange} {year : CfYear} (h : cashYear ctx y = some year) :
    ∀ e ∈ year.effects, ctx.cfClass e.1 ∈ sectionClasses := by
  obtain ⟨close, -, rfl⟩ := Option.map_eq_some_iff.mp h
  exact List.foldlRecOn (motive := fun s : CfYear => ∀ e ∈ s.effects,
    ctx.cfClass e.1 ∈ sectionClasses) _ _ (by simp) fun s hs id _ => step_effects _ close hs

/-- An effect goes to the line of its account. -/
def cfStep (ctx : EngineCtx) (detailByAccount : Bool) (yi : ℕ) (lines : Entries CfKey CfLine)
    (e : Id × ℤ) : Entries CfKey CfLine :=
  lines.update (cfKey ctx detailByAccount e.1 (ctx.cfClass e.1)) fun l =>
    let l := l.getD { cls := ctx.cfClass e.1 }
    { l with exact := fun i => if i = yi then l.exact i + e.2 else l.exact i }

theorem cfLines_eq (detailByAccount : Bool) (years : List (Option CfYear)) :
    cfLines ctx detailByAccount years = years.zipIdx.foldl (fun lines p =>
      (p.1.elim [] CfYear.effects).foldl (cfStep ctx detailByAccount p.2) lines) [] := rfl

def LinesInSections (lines : Entries CfKey CfLine) : Prop := ∀ l ∈ lines, l.2.cls ∈ sectionClasses

theorem cfStep_classes {detailByAccount : Bool} {yi : ℕ} {lines : Entries CfKey CfLine}
    (h : LinesInSections lines) {e : Id × ℤ} (he : ctx.cfClass e.1 ∈ sectionClasses) :
    LinesInSections (cfStep ctx detailByAccount yi lines e) := by
  intro l hl
  rcases Entries.mem_set hl with hl | rfl
  · exact h l hl
  · cases hget : lines.get? (cfKey ctx detailByAccount e.1 (ctx.cfClass e.1)) with
    | none => exact he
    | some l => exact h (_, l) (Entries.mem_of_get? hget)

/-- So every line has one of those classes. -/
theorem cfLines_classes {detailByAccount : Bool} {years : List (Option CfYear)}
    (h : ∀ year ∈ years, ∀ y ∈ year, ∀ e ∈ y.effects, ctx.cfClass e.1 ∈ sectionClasses) :
    LinesInSections (cfLines ctx detailByAccount years) := by
  rw [cfLines_eq]
  refine List.foldlRecOn _ _ (fun l hl => by cases hl) fun lines hlines p hp => ?_
  refine List.foldlRecOn _ _ hlines fun lines hlines e he => cfStep_classes hlines ?_
  cases hy : p.1 with
  | none => simp [hy] at he
  | some y =>
    rw [hy] at he
    exact h p.1 (List.fst_mem_of_mem_zipIdx hp) y hy e he

end Classes

/-! ## Sections -/

section Sections

open CashFlowStatement

variable {lines : List (CfKey × FsCashFlowClass)} {figures : List (Option CfFigures)}

/-- What the lines of some classes come to: one that is left out is zero. -/
theorem members_sum {w : ℕ → ℤ} (hzero : ∀ i, nonZero figures i = false → w i = 0)
    (classes : List FsCashFlowClass) :
    ((members lines figures classes).map w).sum =
      (classes.map fun cls => tally (fun l => true && decide (l.1.2 = cls)) (fun l => w l.2)
        lines.zipIdx).sum := by
  unfold members
  induction classes with
  | nil => rfl
  | cons cls classes ih =>
    have hsplit : (lines.zipIdx.filter fun l => l.1.2 = cls ∧ nonZero figures l.2) =
        (lines.zipIdx.filter fun l => l.1.2 = cls).filter fun l => nonZero figures l.2 := by
      rw [List.filter_filter]
      exact List.filter_congr fun l _ => by simp [Bool.and_comm]
    rw [List.flatMap_cons, List.map_append, List.sum_append, ih, List.map_cons, List.sum_cons,
      List.map_map, hsplit]
    have hkept := @tally_eq_sum _ ℤ _ (fun l => nonZero figures l.2) (fun l => w l.2)
      (lines.zipIdx.filter fun l => l.1.2 = cls) fun l _ h => hzero l.2 h
    exact congrArg (· + _) (hkept.trans (by simp only [tally, Bool.true_and]))

theorem sum_getD_range (xs : List ℤ) :
    ((List.range xs.length).map fun i => xs.getD i 0).sum = xs.sum := by
  refine congrArg _ (List.ext_getElem (by simp) fun i hi hi' => ?_)
  simp [hi']

/-- The lines of all classes come to all lines. -/
theorem members_all {f : CfFigures} (hf : some f ∈ figures) (hlen : f.lines.length = lines.length)
    (hlines : ∀ l ∈ lines, l.2 ∈ sectionClasses) :
    ((members lines figures sectionClasses).map fun i => f.lines.getD i 0).sum = f.lines.sum := by
  have hzero : ∀ i, nonZero figures i = false → f.lines.getD i 0 = 0 := fun i hi => by
    simpa using List.any_eq_false.mp hi (some f) hf
  rw [members_sum hzero, sum_tally_key (fun l : (CfKey × FsCashFlowClass) × ℕ => l.1.2) (by decide),
    tally_eq_sum]
  · have hsnd : (lines.zipIdx.map fun l => f.lines.getD l.2 0) =
        (lines.zipIdx.map Prod.snd).map fun i => f.lines.getD i 0 := by rw [List.map_map]; rfl
    rw [hsnd, List.zipIdx_map_snd, ← List.range_eq_range', ← hlen, sum_getD_range]
  · intro l hl hout
    have := hlines l.1 (List.fst_mem_of_mem_zipIdx hl)
    simp [this] at hout

end Sections

/-- A statement whose lines are all in its sections, and whose figures come to the change in cash
unless a check says otherwise. -/
structure CashFlowStatement.Made (st : CashFlowStatement) : Prop where
  classes : ∀ l ∈ st.lines, l.2 ∈ sectionClasses
  length : ∀ f, some f ∈ st.figures → f.lines.length = st.lines.length
  adds : ∀ f, some f ∈ st.figures → (∀ c ∈ st.checks, c.code ≠ .roundingUnplaced) →
    f.ni + f.lines.sum = f.netChange
  sections : st.sections =
    [⟨members st.lines st.figures [.noncashAdjustment, .operating], true⟩] ++
      (if members st.lines st.figures [.investing] ≠ [] then
        [⟨members st.lines st.figures [.investing], false⟩] else []) ++
      if members st.lines st.figures [.financing] ≠ [] then
        [⟨members st.lines st.figures [.financing], false⟩] else []

theorem buildCashFlows_made {ctx : EngineCtx} {id : Id} {detailByAccount : Bool}
    {inp : CashFlowInputs} {st : CashFlowStatement}
    (h : buildCashFlows ctx id detailByAccount inp = some st) : st.Made := by
  unfold buildCashFlows at h
  extract_lets ranges years lines excluded unreconciled figures unplaced classes part at h
  split_ifs at h
  obtain rfl := Option.some.inj h
  have hfigure : ∀ f, some f ∈ figures → ∃ exacts ni cashBegin cashEnd,
      f = CfFigures.settle ctx.unit exacts ni cashBegin cashEnd ∧ exacts.length = lines.length := by
    intro f hf
    obtain ⟨p, -, hp⟩ := List.mem_map.mp hf
    obtain ⟨year, -, rfl⟩ := Option.map_eq_some_iff.mp hp
    exact ⟨_, _, _, _, rfl, List.length_map _⟩
  constructor
  · intro l hl
    obtain ⟨e, he, rfl⟩ := List.mem_map.mp hl
    refine cfLines_classes (fun year hyear y hy => ?_) e he
    obtain ⟨range, -, rfl⟩ := List.mem_map.mp hyear
    exact cashYear_effects hy
  · intro f hf
    obtain ⟨exacts, ni, cashBegin, cashEnd, rfl, hlen⟩ := hfigure f hf
    rw [settle_length, hlen]
    exact (List.length_map _).symm
  · intro f hf hchecks
    obtain ⟨exacts, ni, cashBegin, cashEnd, rfl, -⟩ := hfigure f hf
    refine settle_adds (Option.eq_none_iff_forall_ne_some.mpr fun diff hdiff => ?_)
    refine hchecks { code := .roundingUnplaced, statementId := id, amount := some diff }
      (List.mem_append_right _ (List.mem_filterMap.mpr ⟨_, hf, ?_⟩)) rfl
    simp [hdiff]
  · simp [part]

/-- The sections come to the change in cash. -/
theorem CashFlowStatement.Made.sections_add {st : CashFlowStatement} (h : st.Made) {f : CfFigures}
    (hf : some f ∈ st.figures) (hchecks : ∀ c ∈ st.checks, c.code ≠ .roundingUnplaced) :
    (st.sections.map fun s => sectionTotal s f).sum = f.netChange := by
  have hall := members_all hf (h.length f hf) h.classes
  have hsplit : ∀ cs : List FsCashFlowClass, ((if members st.lines st.figures cs ≠ [] then
      [(⟨members st.lines st.figures cs, false⟩ : CfSection)] else []).map fun s =>
        sectionTotal s f).sum =
          ((members st.lines st.figures cs).map fun i => f.lines.getD i 0).sum := by
    intro cs
    split_ifs with hne
    · simp [sectionTotal]
    · rw [not_not.mp hne]
      rfl
  have hclasses : members st.lines st.figures sectionClasses =
      members st.lines st.figures [.noncashAdjustment, .operating] ++
        members st.lines st.figures [.investing] ++ members st.lines st.figures [.financing] := by
    simp [members, sectionClasses]
  rw [hclasses, List.map_append, List.map_append, List.sum_append, List.sum_append] at hall
  rw [h.sections, List.map_append, List.map_append, List.sum_append, List.sum_append, hsplit,
    hsplit, ← h.adds f hf hchecks, ← hall]
  simp only [sectionTotal, List.map_cons, List.map_nil, List.sum_cons, List.sum_nil, if_true]
  ring

/-! ## Rows -/

section Rows

namespace CashFlowStatement

variable (st : CashFlowStatement)

/-- A row with an amount for each range that has figures. -/
def cashRow (kind : FsRowKind) (amount : CfFigures → ℤ) (formula : Option FsRowFormula := none) :
    FsRow :=
  { kind, values := st.figures.map fun f => f.map amount, formula }

def emptyRow (kind : FsRowKind) : FsRow := { kind, values := st.figures.map fun _ => none }

/-- The rows that a section's total adds up: net income, and the lines under a heading of their
own. -/
def niRows (s : CfSection) : List FsRow :=
  if s.withNi then [st.cashRow .detail CfFigures.ni] else []

def adjustmentsRows (s : CfSection) : List FsRow :=
  if s.withNi ∧ s.lines ≠ [] then [st.emptyRow .heading] else []

def lineRows (s : CfSection) : List FsRow :=
  s.lines.map fun i => st.cashRow .detail fun f => f.lines.getD i 0

/-- `addSection`, to the rows so far and the places of the totals among them. -/
def addSection (sofar : List FsRow × List ℕ) (s : CfSection) : List FsRow × List ℕ :=
  let rows := sofar.1 ++ [st.emptyRow .heading]
  let above := rows ++ st.niRows s ++ st.adjustmentsRows s
  let terms := List.range' rows.length (st.niRows s).length ++
    List.range' above.length (st.lineRows s).length
  (above ++ st.lineRows s ++ [st.cashRow .total (sectionTotal s)
      (some (formulaOf (terms.map fun row => (row, 1)))), st.emptyRow .blank],
    sofar.2 ++ [(above ++ st.lineRows s).length])

/-- The rows of the statement. -/
def rows : List FsRow :=
  let s := st.sections.foldl st.addSection ([], [])
  s.1 ++ [st.cashRow .total CfFigures.netChange (some (formulaOf (s.2.map fun row => (row, 1)))),
    st.cashRow .detail CfFigures.cashBegin,
    st.cashRow .total CfFigures.cashEnd
      (some (formulaOf [(s.1.length, 1), (s.1.length + 1, 1)]))]

variable {st} {c : ℕ}

theorem cashRow_amountAt {f : CfFigures} (hc : st.figures[c]? = some (some f)) (kind : FsRowKind)
    (amount : CfFigures → ℤ) (formula : Option FsRowFormula) :
    (st.cashRow kind amount formula).amountAt c = amount f := by
  simp [cashRow, FsRow.amountAt, cellAt, hc]

theorem cashRow_shows {kind : FsRowKind} {amount : CfFigures → ℤ} {formula : Option FsRowFormula}
    {v : ℤ} (h : (st.cashRow kind amount formula).values[c]? = some (some v)) :
    ∃ f, st.figures[c]? = some (some f) ∧ amount f = v := by
  rw [cashRow, List.getElem?_map] at h
  rcases hf : st.figures[c]? with _ | _ | f
  · simp [hf] at h
  · simp [hf] at h
  · exact ⟨f, rfl, by simpa [hf] using h⟩

/-- What a section's rows come to. -/
theorem section_rows {f : CfFigures} (hc : st.figures[c]? = some (some f)) (s : CfSection) :
    ((st.niRows s).map (FsRow.amountAt c)).sum + ((st.lineRows s).map (FsRow.amountAt c)).sum =
      sectionTotal s f := by
  rw [sectionTotal, lineRows, List.map_map]
  congr 1
  · unfold niRows
    split_ifs <;> simp [cashRow_amountAt hc]
  · exact congrArg _ (List.map_congr_left fun i _ => cashRow_amountAt hc _ _ _)

/-- The sections so far: formulas that give what is shown, and totals whose places differ. -/
structure Rowed (st : CashFlowStatement) (done : List CfSection) (sofar : List FsRow × List ℕ) :
    Prop where
  recomputes : Recomputes sofar.1
  below : ∀ r ∈ sofar.1, ∀ formula ∈ r.formula, formula.Below sofar.1.length
  nodup : sofar.2.Nodup
  places : ∀ i ∈ sofar.2, i < sofar.1.length
  totals : ∀ (c : ℕ) f, st.figures[c]? = some (some f) →
    (sofar.2.map fun i => (sofar.1[i]?).elim 0 (FsRow.amountAt c)).sum =
      (done.map fun s => sectionTotal s f).sum

theorem eval_places {ns : List ℕ} {rows more : List FsRow} (h : ∀ i ∈ ns, i < rows.length) :
    (ns.map fun i => ((rows ++ more)[i]?).elim 0 (FsRow.amountAt c)).sum =
      (ns.map fun i => (rows[i]?).elim 0 (FsRow.amountAt c)).sum :=
  congrArg _ (List.map_congr_left fun i hi => by rw [List.getElem?_append_left (h i hi)])

/-- The rows that a section adds before its total. -/
def sectionRows (st : CashFlowStatement) (s : CfSection) : List FsRow :=
  [st.emptyRow .heading] ++ st.niRows s ++ st.adjustmentsRows s ++ st.lineRows s

/-- The terms of a section's total, after `n` rows. -/
def sectionTerms (st : CashFlowStatement) (n : ℕ) (s : CfSection) : List ℕ :=
  List.range' (n + 1) (st.niRows s).length ++
    List.range' (n + 1 + (st.niRows s).length + (st.adjustmentsRows s).length)
      (st.lineRows s).length

theorem sectionTerms_nodup (n : ℕ) (s : CfSection) : (st.sectionTerms n s).Nodup := by
  refine List.nodup_append.mpr ⟨List.nodup_range', List.nodup_range', fun i hi j hj => ?_⟩
  have := List.mem_range'_1.mp hi
  have := List.mem_range'_1.mp hj
  omega

theorem addSection_eq (sofar : List FsRow × List ℕ) (s : CfSection) : st.addSection sofar s =
    (sofar.1 ++ st.sectionRows s ++ [st.cashRow .total (sectionTotal s)
        (some (.sum (st.sectionTerms sofar.1.length s))), st.emptyRow .blank],
      sofar.2 ++ [(sofar.1 ++ st.sectionRows s).length]) := by
  rw [← formulaOf_nodup (sectionTerms_nodup sofar.1.length s)]
  simp only [addSection, sectionRows, sectionTerms, List.append_assoc, List.length_append,
    List.length_singleton, add_assoc]

theorem sectionRows_formula {s : CfSection} {r : FsRow} (h : r ∈ st.sectionRows s) :
    r.formula = none := by
  simp only [sectionRows, niRows, adjustmentsRows, lineRows, List.mem_append] at h
  rcases h with ((h | h) | h) | h
  · obtain rfl := List.mem_singleton.mp h
    rfl
  · split_ifs at h
    · obtain rfl := List.mem_singleton.mp h
      rfl
    · cases h
  · split_ifs at h
    · obtain rfl := List.mem_singleton.mp h
      rfl
    · cases h
  · obtain ⟨i, -, rfl⟩ := List.mem_map.mp h
    rfl

theorem sectionTerms_lt {n : ℕ} {s : CfSection} {i : ℕ} (h : i ∈ st.sectionTerms n s) :
    i < n + (st.sectionRows s).length := by
  rcases List.mem_append.mp h with h | h
  all_goals
    have := List.mem_range'_1.mp h
    simp only [sectionRows, List.length_append, List.length_singleton]
    omega

theorem sectionTerms_eval {f : CfFigures} (hc : st.figures[c]? = some (some f))
    (before : List FsRow) (s : CfSection) (after : List FsRow) :
    (FsRowFormula.sum (st.sectionTerms before.length s)).eval
      (before ++ st.sectionRows s ++ after) c = sectionTotal s f := by
  have hni := sum_getElem? (FsRow.amountAt c) (before ++ [st.emptyRow .heading]) (st.niRows s)
    (st.adjustmentsRows s ++ st.lineRows s ++ after)
  have hlines := sum_getElem? (FsRow.amountAt c)
    (before ++ [st.emptyRow .heading] ++ st.niRows s ++ st.adjustmentsRows s) (st.lineRows s) after
  simp only [List.length_append, List.length_singleton, List.append_assoc] at hni hlines
  rw [← section_rows hc s, ← hni, ← hlines, eval_sum, sectionTerms, List.map_append,
    List.sum_append]
  simp only [sectionRows, List.append_assoc, add_assoc]

theorem addSection_rowed {done : List CfSection} {sofar : List FsRow × List ℕ}
    (h : Rowed st done sofar) (s : CfSection) : Rowed st (done ++ [s]) (st.addSection sofar s) := by
  rw [addSection_eq]
  set total := st.cashRow .total (sectionTotal s) (some (.sum (st.sectionTerms sofar.1.length s)))
  have htotal : ∀ r ∈ st.sectionRows s ++ [total, st.emptyRow .blank], ∀ formula ∈ r.formula,
      r = total ∧ formula = .sum (st.sectionTerms sofar.1.length s) := by
    intro r hr formula hformula
    rcases List.mem_append.mp hr with hr | hr
    · rw [sectionRows_formula hr] at hformula
      cases hformula
    · rcases List.mem_cons.mp hr with rfl | hr
      · exact ⟨rfl, (Option.some.inj hformula).symm⟩
      · obtain rfl := List.mem_singleton.mp hr
        cases hformula
  simp only [List.append_assoc]
  constructor
  · refine recomputes_append h.recomputes h.below fun r hr formula hformula c v hv => ?_
    obtain ⟨rfl, rfl⟩ := htotal r hr formula hformula
    obtain ⟨f, hf, rfl⟩ := cashRow_shows hv
    rw [← List.append_assoc]
    exact sectionTerms_eval hf sofar.1 s _
  · intro r hr formula hformula
    simp only [List.length_append, List.length_cons, List.length_nil]
    rcases List.mem_append.mp hr with hr | hr
    · exact fun t ht => (h.below r hr formula hformula t ht).trans_le (Nat.le_add_right _ _)
    · obtain ⟨-, rfl⟩ := htotal r hr formula hformula
      intro t ht
      obtain ⟨i, hi, rfl⟩ := List.mem_map.mp ht
      have := sectionTerms_lt hi
      omega
  · refine List.nodup_append.mpr ⟨h.nodup, List.nodup_singleton _, fun i hi j hj => ?_⟩
    have := h.places i hi
    rw [List.mem_singleton.mp hj, List.length_append]
    omega
  · simp only [List.length_append, List.length_cons, List.length_nil]
    refine List.forall_mem_append.mpr
      ⟨fun i hi => (h.places i hi).trans_le (Nat.le_add_right _ _), ?_⟩
    simp
  · intro c f hf
    rw [List.map_append, List.sum_append, List.map_append, List.sum_append, ← h.totals c f hf,
      eval_places h.places]
    simp [cashRow_amountAt hf, total]

/-- The rows of the statement give what they show. -/
theorem cashRows_recompute (hst : st.Made) (hchecks : ∀ c ∈ st.checks, c.code ≠ .roundingUnplaced) :
    Recomputes st.rows := by
  have hrowed : ∀ (ss done : List CfSection) (sofar : List FsRow × List ℕ), Rowed st done sofar →
      Rowed st (done ++ ss) (ss.foldl st.addSection sofar) := by
    intro ss
    induction ss with
    | nil => intro done sofar h; simpa using h
    | cons s ss ih =>
      intro done sofar h
      simpa using ih _ _ (addSection_rowed h s)
  have h := hrowed st.sections [] ([], []) (by constructor <;> simp [Recomputes])
  rw [List.nil_append] at h
  unfold rows
  extract_lets s
  have hcash : formulaOf [(s.1.length, 1), (s.1.length + 1, 1)] =
      .sum [s.1.length, s.1.length + 1] := @formulaOf_nodup [s.1.length, s.1.length + 1] (by simp)
  rw [hcash, formulaOf_nodup h.nodup]
  refine recomputes_append h.recomputes h.below fun r hr formula hformula c v hv => ?_
  simp only [List.mem_cons, List.not_mem_nil, or_false] at hr
  rcases hr with rfl | rfl | rfl
  · obtain rfl := Option.some.inj hformula
    obtain ⟨f, hf, rfl⟩ := cashRow_shows hv
    rw [eval_sum, eval_places h.places]
    exact (h.totals c f hf).trans (hst.sections_add (List.mem_of_getElem? hf) hchecks)
  · cases hformula
  · obtain rfl := Option.some.inj hformula
    obtain ⟨f, hf, rfl⟩ := cashRow_shows hv
    simp [eval_sum, cashRow_amountAt hf, CfFigures.netChange]

end CashFlowStatement

end Rows

end MyBooks
