import MyBooks.SalesTax

/-!
# One sales tax against one rate

Taxable lines that all go by one rate make one group, with the base and the tax of a document with
one sales tax of that rate. The two documents are the same but where the tax comes to nothing: the
group still allocates it (`oneRate_iff`).
-/

namespace MyBooks

section OneRate

variable {lines : List SalesAmountInput} {rate : SetupTaxRate}

/-- The taxable lines all go by the rate `rate`, their own or the default. -/
def AllAt (lines : List SalesAmountInput) (rate : SetupTaxRate) : Prop :=
  ∀ l ∈ lines, l.isTaxable → l.taxRate = none ∨ l.taxRate = some rate.val

/-- The rates of the lines when all go by one. -/
def ratesAt (lines : List SalesAmountInput) (rate : SetupTaxRate) : List Dec :=
  lines.map fun l => if l.isTaxable then rate.val else 0

theorem parseSalesTaxRate_setup (field : String) :
    parseSalesTaxRate rate.val field = .ok rate.val := by
  obtain ⟨r, hplaces, hnonneg, hlt⟩ := rate
  have hround : toPlaces 6 r = r := toPlaces_of_places hplaces
  rw [parseSalesTaxRate, if_neg (not_lt.mpr hnonneg), hround, if_neg (not_le.mpr hlt)]

theorem mapM_eq_ok {ε α β : Type} {f : α → Except ε β} {g : α → β} :
    ∀ {l : List α}, (∀ a ∈ l, f a = .ok (g a)) → l.mapM f = .ok (l.map g)
  | [], _ => rfl
  | a :: l, h => by
    rw [List.mapM_cons, h a List.mem_cons_self,
      mapM_eq_ok fun b hb => h b (List.mem_cons_of_mem _ hb)]
    rfl

theorem lineRates_at (h : AllAt lines rate) :
    lines.zipIdx.mapM (lineRate rate.val) = .ok (ratesAt lines rate) := by
  have hall : ∀ p ∈ lines.zipIdx, lineRate rate.val p =
      .ok (if p.1.isTaxable then rate.val else 0) := by
    intro p hp
    unfold lineRate
    by_cases htax : p.1.isTaxable
    · rcases h p.1 (List.fst_mem_of_mem_zipIdx hp) htax with hr | hr
      · simp [htax, hr]
      · simp [htax, hr, parseSalesTaxRate_setup]
    · simp [htax]
  rw [mapM_eq_ok hall, ratesAt]
  conv_rhs => rw [← List.zipIdx_map_fst 0 lines, List.map_map]
  rfl

theorem ratesAt_of_mem {p : SalesAmountInput × ℕ} (h : p ∈ lines.zipIdx) :
    (ratesAt lines rate).getD p.2 0 = if p.1.isTaxable then rate.val else 0 := by
  rw [List.getD_eq_getElem?_getD, ratesAt, List.getElem?_map, List.mem_zipIdx_iff_getElem?.mp h]
  rfl

/-- The taxable lines make one group. -/
theorem taxableGroups_at : taxableGroups lines (fun i => (ratesAt lines rate).getD i 0) =
    if taxableIdx lines = [] ∨ rate.val = 0 then [] else [(rate.val, taxableIdx lines)] := by
  have hplaces : toPlaces 6 rate.val = rate.val := toPlaces_of_places rate.property.1
  by_cases hzero : rate.val = 0
  · rw [if_pos (.inr hzero), taxableGroups, List.filter_eq_nil_iff.mpr fun p hp => by
      rw [ratesAt_of_mem hp, hzero, ite_self]
      simp]
    rfl
  have hfilter : (lines.zipIdx.filter fun p =>
      p.1.isTaxable && (ratesAt lines rate).getD p.2 0 ≠ 0) =
      lines.zipIdx.filter (·.1.isTaxable) := by
    refine List.filter_congr fun p hp => ?_
    rw [ratesAt_of_mem hp]
    by_cases h : p.1.isTaxable
    · simp [h, hzero]
    · simp [h]
  have hsame := Entries.foldl_update_same (k := rate.val)
    (fun p : SalesAmountInput × ℕ => toPlaces 6 ((ratesAt lines rate).getD p.2 0))
    (fun p g => g.getD [] ++ [p.2]) (lines.zipIdx.filter (·.1.isTaxable)) none fun p hp => by
      obtain ⟨hp, htax⟩ := List.mem_filter.mp hp
      rw [ratesAt_of_mem hp, if_pos htax, hplaces]
  rw [taxableGroups, hfilter]
  refine hsame.trans ?_
  rw [foldl_getD_append (fun p : SalesAmountInput × ℕ => p.2)]
  by_cases hnil : lines.zipIdx.filter (·.1.isTaxable) = []
  · simp [taxableIdx, hnil]
  · simp [taxableIdx, hnil, hzero]

theorem foldl_getD_add {α : Type*} (f : α → Dec) : ∀ (xs : List α) (o : Option Dec),
    xs.foldl (fun o x => some (o.getD 0 + f x)) o =
      if xs = [] then o else some (o.getD 0 + (xs.map f).sum)
  | [], _ => rfl
  | x :: xs, o => by
    rw [List.foldl_cons, foldl_getD_add f xs]
    by_cases h : xs = []
    · subst h
      simp
    · simp [h, add_assoc]

theorem baseByRate_at : baseByRate lines (fun i => (ratesAt lines rate).getD i 0) =
    if taxableIdx lines = [] then [] else [(rate.val, taxableSum lines)] := by
  have hsame := Entries.foldl_update_same (k := rate.val)
    (fun p : SalesAmountInput × ℕ => toPlaces 6 ((ratesAt lines rate).getD p.2 0))
    (fun p b => b.getD 0 + amountAt lines p.2) (lines.zipIdx.filter (·.1.isTaxable)) none
    fun p hp => by
      obtain ⟨hp, htax⟩ := List.mem_filter.mp hp
      rw [ratesAt_of_mem hp, if_pos htax, toPlaces_of_places rate.property.1]
  rw [baseByRate]
  refine hsame.trans ?_
  rw [foldl_getD_add (fun p : SalesAmountInput × ℕ => amountAt lines p.2)]
  by_cases hnil : lines.zipIdx.filter (·.1.isTaxable) = []
  · simp [taxableIdx, hnil]
  · simp [taxableIdx, taxableSum, hnil, List.map_map, Function.comp_def]

/-- The base shown is that of one sales tax. -/
theorem taxableBase_at : (((baseByRate lines fun i => (ratesAt lines rate).getD i 0).map (·.2)).map
    fun b => if decide (0 < salesSubtotal lines) && b < 0 then 0 else b).sum = oneTaxBase lines := by
  rw [baseByRate_at]
  by_cases hnil : taxableIdx lines = []
  · have hsum : taxableSum lines = 0 := by rw [taxableSum, hnil]; rfl
    rw [if_pos hnil, oneTaxBase, hsum, ite_self]
    rfl
  · rw [if_neg hnil, oneTaxBase]
    by_cases hfloor : Floored lines
    · rw [if_pos hfloor]
      simp [hfloor.1, hfloor.2]
    · rw [if_neg hfloor]
      simp only [List.map_cons, List.map_nil, List.sum_cons, List.sum_nil, add_zero]
      rw [if_neg]
      simpa [Floored] using hfloor

/-- A sales tax of one item. -/
def oneItem (id itemId : Id) (rate : SetupTaxRate) : SalesTaxUnit := ⟨id, [⟨itemId, rate⟩]⟩

theorem oneItem_rate {id itemId : Id} : (oneItem id itemId rate).rate = rate.val := by
  simp [oneItem, SalesTaxUnit.rate]

/-- The lines' taxes as one group at the rate. -/
def groupTaxes (lines : List SalesAmountInput) (rate tax : Dec) : ℕ → Dec :=
  fillTaxes (fun _ => 0) (taxableIdx lines)
    ((groupShares (taxableIdx lines) (amountAt lines) rate).zipIdx.map
      (centShare (groupShares (taxableIdx lines) (amountAt lines) rate) tax))

theorem allocateTax_at {tax : Dec} (htax : tax = round2 (taxableSum lines * rate.val)) :
    allocateTax (groupShares (taxableIdx lines) (amountAt lines) rate.val) tax =
      .ok ((groupShares (taxableIdx lines) (amountAt lines) rate.val).zipIdx.map
        (centShare (groupShares (taxableIdx lines) (amountAt lines) rate.val) tax)) := by
  have hround : tax = round2 (groupShares (taxableIdx lines) (amountAt lines) rate.val).sum := by
    rw [htax, groupShares, List.sum_map_mul_right]
    rfl
  rw [allocateTax, (allocateCents_ok hround).1]

section Documents

variable {id itemId : Id}

theorem oneTax_item : oneTax lines (oneItem id itemId rate) = round2 (oneTaxBase lines * rate.val) := by
  rw [oneTax, oneItem_rate]

/-- The group's tax is that of one sales tax, and so is the row that shows it. -/
theorem taxGroups_at (id itemId : Id) (hidx : taxableIdx lines ≠ []) (hrate : rate.val ≠ 0) :
    (taxableGroups lines fun i => (ratesAt lines rate).getD i 0).foldlM
      (taxGroup lines (decide (0 < salesSubtotal lines))) ⟨fun _ => 0, [], 0⟩ =
    .ok ⟨if Floored lines then fun _ => 0
        else groupTaxes lines rate.val (oneTax lines (oneItem id itemId rate)),
      [⟨rate.val, round2 (oneTaxBase lines), round2 (oneTax lines (oneItem id itemId rate))⟩],
      oneTax lines (oneItem id itemId rate)⟩ := by
  rw [taxableGroups_at, if_neg (by tauto), List.foldlM_cons]
  simp only [taxGroup, ← taxableSum.eq_1]
  by_cases hfloor : Floored lines
  · have hcond : (decide (0 < salesSubtotal lines) && decide (taxableSum lines < 0)) = true := by
      simp [hfloor.1, hfloor.2]
    have hbase : oneTaxBase lines = 0 := if_pos hfloor
    rw [if_pos hcond, if_pos hfloor, oneTax_of_floored hfloor, hbase, round2, toPlaces_zero]
    rfl
  · have hcond : ¬(decide (0 < salesSubtotal lines) && decide (taxableSum lines < 0)) = true := by
      simpa [Floored] using hfloor
    have hbase : oneTaxBase lines = taxableSum lines := if_neg hfloor
    have htax : oneTax lines (oneItem id itemId rate) = round2 (taxableSum lines * rate.val) := by
      rw [oneTax_item, hbase]
    have halloc := allocateTax_at htax
    rw [groupShares] at halloc
    rw [if_neg hcond, if_neg hfloor, ← htax, halloc, hbase]
    simp only [ok_bind, pure_bind, List.foldlM_nil, List.nil_append, zero_add]
    rfl

theorem taxGroups_at_none (h : taxableIdx lines = [] ∨ rate.val = 0) :
    (taxableGroups lines fun i => (ratesAt lines rate).getD i 0).foldlM
      (taxGroup lines (decide (0 < salesSubtotal lines))) ⟨fun _ => 0, [], 0⟩ =
    .ok ⟨fun _ => 0, [], 0⟩ := by
  rw [taxableGroups_at, if_pos h]
  rfl

theorem oneTax_eq_zero_of_none (h : taxableIdx lines = [] ∨ rate.val = 0) :
    oneTax lines (oneItem id itemId rate) = 0 := by
  rw [oneTax_item]
  rcases h with h | h
  · have hsum : taxableSum lines = 0 := by rw [taxableSum, h]; rfl
    rw [oneTaxBase, hsum, ite_self, zero_mul, round2, toPlaces_zero]
  · rw [h, mul_zero, round2, toPlaces_zero]

end Documents

/-- Taxable lines come to less than half a cent of tax, not floored, and one below zero and one not
are taxed more than a cent apart, or just a cent with the one below zero standing later. -/
def Straddles (lines : List SalesAmountInput) (rate : Dec) : Prop :=
  ¬Floored lines ∧ |taxableSum lines * rate| < 1 / 200 ∧
    ∃ i ∈ taxableIdx lines, ∃ j ∈ taxableIdx lines,
      amountAt lines i * rate < 0 ∧ 0 ≤ amountAt lines j * rate ∧
        (1 / 100 < amountAt lines j * rate - amountAt lines i * rate ∨
          (amountAt lines j * rate - amountAt lines i * rate = 1 / 100 ∧ j < i))

theorem pairwise_taxableIdx : (taxableIdx lines).Pairwise (· < ·) := by
  have hsub : (taxableIdx lines).Sublist (lines.zipIdx.map (·.2)) := List.filter_sublist.map _
  refine List.Pairwise.sublist hsub ?_
  rw [List.zipIdx_map_snd]
  exact List.pairwise_lt_range'

theorem mem_zipIdx_groupShares {idx : List ℕ} {amount : ℕ → Dec} {rate : Dec} {p : Dec × ℕ} :
    p ∈ (groupShares idx amount rate).zipIdx ↔
      ∃ h : p.2 < idx.length, p.1 = amount idx[p.2] * rate := by
  rw [List.mem_zipIdx_iff_getElem?, groupShares, List.getElem?_map, Option.map_eq_some_iff]
  constructor
  · rintro ⟨i, hi, hp⟩
    obtain ⟨h, rfl⟩ := List.getElem?_eq_some_iff.mp hi
    exact ⟨h, hp.symm⟩
  · rintro ⟨h, hp⟩
    exact ⟨idx[p.2], List.getElem?_eq_getElem h, hp.symm⟩

/-- The tax of a group's line is what its share is given. -/
theorem groupTaxes_getElem {rate tax : Dec} {k : ℕ} (hk : k < (taxableIdx lines).length) :
    groupTaxes lines rate tax (taxableIdx lines)[k] =
      centShare (groupShares (taxableIdx lines) (amountAt lines) rate) tax
        (amountAt lines (taxableIdx lines)[k] * rate, k) := by
  refine fillTaxes_of_mem _ _ _ nodup_taxableIdx (List.mem_iff_getElem.mpr ⟨k, ?_, ?_⟩)
  · simpa [groupShares] using hk
  · simp [groupShares]

theorem groupTaxes_eq_zero_iff {rate tax : Dec} : (∀ i, groupTaxes lines rate tax i = 0) ↔
    ∀ p ∈ (groupShares (taxableIdx lines) (amountAt lines) rate).zipIdx,
      centShare (groupShares (taxableIdx lines) (amountAt lines) rate) tax p = 0 := by
  constructor
  · rintro h ⟨x, k⟩ hp
    obtain ⟨hk, hx⟩ := mem_zipIdx_groupShares.mp hp
    simp only [] at hk hx
    rw [hx, ← groupTaxes_getElem hk]
    exact h _
  · intro h i
    by_cases hi : i ∈ taxableIdx lines
    · obtain ⟨k, hk, rfl⟩ := List.mem_iff_getElem.mp hi
      rw [groupTaxes_getElem hk]
      exact h _ (mem_zipIdx_groupShares.mpr ⟨hk, rfl⟩)
    · exact fillTaxes_of_notMem _ _ _ hi

/-- A group of no tax allocates nothing unless its lines straddle a cent. -/
theorem groupTaxes_zero_iff {rate : Dec} (hfloor : ¬Floored lines)
    (hsmall : |taxableSum lines * rate| < 1 / 200) :
    (∀ i, groupTaxes lines rate 0 i = 0) ↔ ¬Straddles lines rate := by
  have hround : round2 (groupShares (taxableIdx lines) (amountAt lines) rate).sum = 0 := by
    rw [groupShares, List.sum_map_mul_right]
    refine toPlaces_eq_zero.mpr ?_
    change |taxableSum lines * rate| * 10 ^ 2 < 1 / 2
    linarith
  rw [groupTaxes_eq_zero_iff, centShare_eq_zero_iff hround]
  have hlt : ∀ {k k' : ℕ} (hk : k < (taxableIdx lines).length) (hk' : k' < (taxableIdx lines).length),
      k < k' → (taxableIdx lines)[k] < (taxableIdx lines)[k'] := fun hk hk' h =>
    List.pairwise_iff_getElem.mp pairwise_taxableIdx _ _ hk hk' h
  constructor
  · rintro h ⟨-, -, i, hi, j, hj, hneg, hpos, hapart⟩
    obtain ⟨k, hk, rfl⟩ := List.mem_iff_getElem.mp hi
    obtain ⟨k', hk', rfl⟩ := List.mem_iff_getElem.mp hj
    rcases h (_, k) (mem_zipIdx_groupShares.mpr ⟨hk, rfl⟩) (_, k')
      (mem_zipIdx_groupShares.mpr ⟨hk', rfl⟩) hneg hpos with h | ⟨h, hkk⟩ <;>
      simp only [] at h
    · rcases hapart with ha | ⟨ha, -⟩ <;> linarith
    · rcases hapart with ha | ⟨-, hji⟩
      · linarith
      · exact absurd (hlt hk hk' hkk) (not_lt.mpr hji.le)
  · rintro h ⟨x, k⟩ hp ⟨y, k'⟩ hq hneg hpos
    obtain ⟨hk, hx⟩ := mem_zipIdx_groupShares.mp hp
    obtain ⟨hk', hy⟩ := mem_zipIdx_groupShares.mp hq
    simp only [] at hk hk' hx hy hneg hpos
    by_contra hpre
    rw [Precedes, not_or, not_and, not_lt] at hpre
    simp only [] at hpre
    refine h ⟨hfloor, hsmall, _, List.getElem_mem hk, _, List.getElem_mem hk', hx ▸ hneg, hy ▸ hpos, ?_⟩
    rw [← hx, ← hy]
    rcases eq_or_lt_of_le hpre.1 with heq | hlt'
    · refine .inr ⟨by linarith, ?_⟩
      have hle := not_lt.mp (hpre.2 heq.symm)
      rcases eq_or_lt_of_le hle with rfl | hlt'
      · rw [← hy] at hx
        linarith
      · exact hlt hk' hk hlt'
    · exact .inl (by linarith)

/-- The lines' taxes when all go by one rate. -/
def lineTaxes (lines : List SalesAmountInput) (rate tax : Dec) : ℕ → Dec :=
  if (taxableIdx lines = [] ∨ rate = 0) ∨ Floored lines then fun _ => 0
  else groupTaxes lines rate tax

theorem lineTotals_at (h : AllAt lines rate) (id itemId : Id) :
    computeSalesTotals lines (some rate.val) none =
      if MONEY_LIMIT ≤ |salesSubtotal lines + oneTax lines (oneItem id itemId rate)| then
        .error .totalTooLarge
      else .ok (lineDocument lines (fun i => (ratesAt lines rate).getD i 0)
        ⟨lineTaxes lines rate.val (oneTax lines (oneItem id itemId rate)),
          (oneTaxDocument lines (oneItem id itemId rate) (fun _ => 0) []).taxGroups,
          oneTax lines (oneItem id itemId rate)⟩) := by
  have hf : parseSalesTaxRate ((some rate.val).getD 0) "defaultTaxRate" = .ok rate.val :=
    parseSalesTaxRate_setup _
  rw [lineTotals_eq hf (lineRates_at h) (s := ⟨lineTaxes lines rate.val
    (oneTax lines (oneItem id itemId rate)),
    (oneTaxDocument lines (oneItem id itemId rate) (fun _ => 0) []).taxGroups,
    oneTax lines (oneItem id itemId rate)⟩)]
  by_cases hnone : taxableIdx lines = [] ∨ rate.val = 0
  · rw [taxGroups_at_none hnone, oneTax_eq_zero_of_none hnone, lineTaxes, if_pos (.inl hnone)]
    simp only [oneTaxDocument, oneItem_rate, if_pos hnone]
  · push Not at hnone
    rw [taxGroups_at id itemId hnone.1 hnone.2]
    simp only [oneTaxDocument, toPlaces_of_places rate.property.1, lineTaxes, oneItem_rate, hnone.1, hnone.2, or_self, false_or,
      if_false]

/-- The figures of a document. -/
structure SalesFigures where
  taxAmounts : List Dec
  subtotal : Dec
  taxableBase : Dec
  taxTotal : Dec
  total : Dec
  taxGroups : List TaxGroup
  deriving DecidableEq, Repr

def SalesDocumentResult.figures (r : SalesDocumentResult) : SalesFigures :=
  { taxAmounts := r.lines.map (·.taxAmount), subtotal := r.subtotal, taxableBase := r.taxableBase
    taxTotal := r.taxTotal, total := r.total, taxGroups := r.taxGroups }

theorem figures_eq_iff {taxUnit : SalesTaxUnit} {taxes taxes' rates : ℕ → Dec} {memberTax : List Dec}
    (hbase : (((baseByRate lines rates).map (·.2)).map fun b =>
      if decide (0 < salesSubtotal lines) && b < 0 then 0 else b).sum = oneTaxBase lines) :
    (oneTaxDocument lines taxUnit taxes memberTax).figures =
      (lineDocument lines rates ⟨taxes', (oneTaxDocument lines taxUnit (fun _ => 0) []).taxGroups,
        oneTax lines taxUnit⟩).figures ↔
    ∀ i < lines.length, round2 (taxes i) = round2 (taxes' i) := by
  have hshown : (lineDocument lines rates ⟨taxes',
      (oneTaxDocument lines taxUnit (fun _ => 0) []).taxGroups, oneTax lines taxUnit⟩).taxableBase =
      (oneTaxDocument lines taxUnit taxes memberTax).taxableBase := congrArg round2 hbase
  simp only [SalesDocumentResult.figures, hshown, SalesFigures.mk.injEq]
  simp only [oneTaxDocument, lineDocument, and_true, lineResults, List.map_map, List.map_inj_left]
  constructor
  · intro h i hi
    exact h (lines[i], i) (List.mem_zipIdx_iff_getElem?.mpr (by simp))
  · intro h p hp
    exact h p.2 (List.snd_lt_of_mem_zipIdx hp)

theorem groupTaxes_cents {rate tax : Dec} (i : ℕ) : Cents (groupTaxes lines rate tax i) :=
  fillTaxes_cents (fun x hx => by
    obtain ⟨p, -, rfl⟩ := List.mem_map.mp hx
    exact centShare_cents p) (fun _ => Places.zero) nodup_taxableIdx (by simp [groupShares]) i

theorem lineTaxes_cents {rate tax : Dec} (i : ℕ) : Cents (lineTaxes lines rate tax i) := by
  unfold lineTaxes
  split_ifs
  · exact Places.zero
  · exact groupTaxes_cents i

/-- Both documents tax the lines alike, unless the group allocates a tax of nothing. -/
theorem oneTaxed_eq_iff {id itemId : Id} {taxes : ℕ → Dec}
    (ht : OneTaxed lines (oneItem id itemId rate) taxes) :
    (∀ i < lines.length, round2 (taxes i) =
      round2 (lineTaxes lines rate.val (oneTax lines (oneItem id itemId rate)) i)) ↔
    ¬Straddles lines rate.val := by
  have hall : (∀ i < lines.length, round2 (taxes i) =
      round2 (lineTaxes lines rate.val (oneTax lines (oneItem id itemId rate)) i)) ↔
      ∀ i < lines.length, taxes i =
        lineTaxes lines rate.val (oneTax lines (oneItem id itemId rate)) i := by
    simp only [round2_of_cents (ht.cents _), round2_of_cents (lineTaxes_cents _)]
  rw [hall]
  by_cases hnone : (taxableIdx lines = [] ∨ rate.val = 0) ∨ Floored lines
  · have hzero : oneTax lines (oneItem id itemId rate) = 0 := by
      rcases hnone with h | h
      · exact oneTax_eq_zero_of_none h
      · exact oneTax_of_floored h
    refine iff_of_true (fun i _ => by rw [ht.zero hzero, lineTaxes, if_pos hnone]) ?_
    rintro ⟨hfloor, -, i, hi, j, -, hneg, -⟩
    rcases hnone.resolve_right hfloor with h | h
    · rw [h] at hi
      cases hi
    · rw [h, mul_zero] at hneg
      exact lt_irrefl _ hneg
  have hlines : lineTaxes lines rate.val (oneTax lines (oneItem id itemId rate)) =
      groupTaxes lines rate.val (oneTax lines (oneItem id itemId rate)) := if_neg hnone
  have hfloor : ¬Floored lines := fun h => hnone (.inr h)
  rw [hlines]
  by_cases hzero : oneTax lines (oneItem id itemId rate) = 0
  · have hsmall := (oneTax_eq_zero hfloor).mp hzero
    rw [oneItem_rate] at hsmall
    rw [ht.zero hzero, hzero, ← groupTaxes_zero_iff hfloor hsmall]
    constructor
    · intro h i
      by_cases hi : i ∈ taxableIdx lines
      · exact (h i (lt_of_mem_taxableIdx hi)).symm
      · exact fillTaxes_of_notMem _ _ _ hi
    · exact fun h i _ => (h i).symm
  · refine iff_of_true (fun i _ => ?_) ?_
    · obtain ⟨shares, hok, rfl⟩ := ht.fill hzero
      have htax : oneTax lines (oneItem id itemId rate) = round2 (taxableSum lines * rate.val) := by
        rw [oneTax_item, oneTaxBase, if_neg hfloor]
      rw [oneItem_rate, allocateTax_at htax] at hok
      rw [← Except.ok.inj hok]
      rfl
    · rintro ⟨-, hsmall, -⟩
      refine hzero ((oneTax_eq_zero hfloor).mpr ?_)
      rwa [oneItem_rate]

theorem oneRate_iff (h : AllAt lines rate) (id itemId : Id) (defaultTaxRate : Option Dec) :
    (computeSalesTotals lines defaultTaxRate (some (oneItem id itemId rate))).map
        SalesDocumentResult.figures =
      (computeSalesTotals lines (some rate.val) none).map SalesDocumentResult.figures ↔
    (|salesSubtotal lines| < MONEY_LIMIT → ¬Straddles lines rate.val) := by
  have hunit : computeSalesTotals lines defaultTaxRate (some (oneItem id itemId rate)) =
    computeWithSalesTax lines (oneItem id itemId rate) := rfl
  obtain ⟨taxes, memberTax, ht, -, -, -, heq⟩ :=
    computeWithSalesTax_eq lines (oneItem id itemId rate)
  rw [hunit, heq, lineTotals_at h id itemId]
  have hzero : Straddles lines rate.val → oneTax lines (oneItem id itemId rate) = 0 := fun hs =>
    (oneTax_eq_zero hs.1).mpr (by rw [oneItem_rate]; exact hs.2.1)
  split_ifs with hlarge
  · refine iff_of_true rfl fun hsmall hs => ?_
    rw [hzero hs, add_zero] at hlarge
    exact absurd hsmall (not_lt.mpr hlarge)
  · have hok : ∀ {r r' : SalesDocumentResult},
        (Except.ok r : Except SalesError SalesDocumentResult).map SalesDocumentResult.figures =
          (Except.ok r' : Except SalesError SalesDocumentResult).map SalesDocumentResult.figures ↔
        r.figures = r'.figures := fun {r r'} => ⟨fun h => Except.ok.inj h, fun h => congrArg Except.ok h⟩
    rw [hok, figures_eq_iff taxableBase_at, oneTaxed_eq_iff ht]
    refine ⟨fun hs _ => hs, fun hs hstr => hs ?_ hstr⟩
    rw [hzero hstr, add_zero] at hlarge
    exact not_le.mp hlarge

/-- A sale and a discount on it. -/
def discounted : List SalesAmountInput :=
  [⟨⟨10, Places.intCast 10⟩, true, none⟩, ⟨⟨-1, Places.intCast (-1)⟩, true, some (8 / 100)⟩]

theorem discounted_oneRate :
    (computeSalesTotals discounted none (some (oneItem "tax" "state" eightRate))).map
        SalesDocumentResult.figures =
      (computeSalesTotals discounted (some eightRate.val) none).map SalesDocumentResult.figures := by
  refine (oneRate_iff ?_ "tax" "state" none).mpr ?_
  · simp [AllAt, discounted, eightRate]
  · rintro - ⟨-, hsmall, -⟩
    have htax : taxableSum discounted * eightRate.val = 72 / 100 := by decide +kernel
    rw [htax] at hsmall
    norm_num [abs_lt] at hsmall

theorem exchange_twoTaxes : AllAt exchange eightRate ∧
    (computeSalesTotals exchange none (some (oneItem "tax" "state" eightRate))).map
        SalesDocumentResult.figures ≠
      (computeSalesTotals exchange (some eightRate.val) none).map SalesDocumentResult.figures := by
  refine ⟨by simp [AllAt, exchange], ?_⟩
  have hunit : (computeSalesTotals exchange none (some (oneItem "tax" "state" eightRate))).map
      SalesDocumentResult.figures = .ok ⟨[0, 0], 0, 0, 0, 0, [⟨8 / 100, 0, 0⟩]⟩ := by
    decide +kernel
  have hrate : (computeSalesTotals exchange (some eightRate.val) none).map
      SalesDocumentResult.figures = .ok ⟨[8, -8], 0, 0, 0, 0, [⟨8 / 100, 0, 0⟩]⟩ := by
    decide +kernel
  rw [hunit, hrate]
  simp

end OneRate

end MyBooks
