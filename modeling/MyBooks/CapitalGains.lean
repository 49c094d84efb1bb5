import MyBooks.RegularTax

/-!
# The capital gain worksheet as taxable income rises

The worksheet splits taxable income: the gains at 0, 15 and 20% fill `line21`, the ordinary portion
is part of the rest `line14`, and the gains at 25 and 28% fill what is left of it (`gap_eq`). As
taxable income rises with the gains held, the ordinary portion and the gains at 25 and 28% do not
shrink, and of the gains at 0, 15 and 20% no more come to the lower rates than come in all
(`line20_rise`, `lowRates_rise`). So no tax is saved.
-/

namespace MyBooks

namespace ScheduleD

variable {s s' : ScheduleD}

/-- Taxable income and the breakpoints are not negative, and the breakpoints ascend. -/
structure Ordered (s : ScheduleD) : Prop where
  ti : 0 ≤ s.ti
  zeroBreak : 0 ≤ s.zeroBreak
  fifteenBreak : s.zeroBreak ≤ s.fifteenBreak

theorem line12_le : s.line12 ≤ s.line9 := min_le_left _ _

theorem line13_nonneg : 0 ≤ s.line13 := by
  have hqd := dFloorZero_nonneg s.qd
  have h12 := line12_le (s := s)
  unfold line13 line10
  linarith

theorem line12_nonneg : 0 ≤ s.line12 :=
  le_min (dFloorZero_nonneg _) (add_nonneg (dFloorZero_nonneg _) (dFloorZero_nonneg _))

theorem line14_eq : s.line14 = s.ti - s.line21 := by
  unfold line14 line21
  rw [dFloorZero_eq]
  rcases le_total s.ti s.line13 with h | h
  · rw [min_eq_left h, max_eq_right (by linarith), sub_self]
  · rw [min_eq_right h, max_eq_left (by linarith)]

theorem line18_le : s.line18 ≤ s.line14 := by
  have h12 := line12_nonneg (s := s)
  have h13 : s.line13 = s.line10 - s.line12 := rfl
  exact dFloorZero_mono (by linarith)

theorem line19_le : s.line19 ≤ s.line14 := max_le (min_le_left _ _) line18_le

theorem line19_nonneg : 0 ≤ s.line19 := (dFloorZero_nonneg _).trans (le_max_right _ _)

theorem line20_eq : s.line20 = dFloorZero (s.line16 - s.line14) := by
  unfold line20 line17
  rw [dFloorZero_eq]
  rcases le_total s.line14 s.line16 with h | h
  · rw [min_eq_left h, max_eq_left (by linarith)]
  · rw [min_eq_right h, max_eq_right (by linarith), sub_self]

theorem line21_nonneg (h : s.Ordered) : 0 ≤ s.line21 := le_min h.ti line13_nonneg

theorem line20_le (h : s.Ordered) : s.line20 ≤ s.line21 := by
  rw [line20_eq]
  refine dFloorZero_le ?_ (line21_nonneg h)
  have h14 := line14_eq (s := s)
  have h16 : s.line16 ≤ s.ti := min_le_left _ _
  linarith

/-- The gains at 0 and 15%: those at 0%, and the others that the breakpoint leaves room for. -/
theorem line30_eq (h : s.Ordered) :
    s.line30 = max s.line20 (min s.line21 (s.fifteenBreak - s.line19)) := by
  have h20 := line20_le h
  have h19 := line19_le (s := s)
  have h14 := line14_eq (s := s)
  unfold line30 line28 line27 line26 line25 line23
  rw [dFloorZero_eq]
  rcases le_total s.ti s.fifteenBreak with hti | hti
  · -- all the gains left are below the breakpoint
    rw [min_eq_left hti, min_eq_left (a := s.line21) (by linarith), max_eq_right h20,
      min_eq_left]
    · ring
    · exact le_max_of_le_left (by linarith)
  · rw [min_eq_right hti]
    rcases le_total (s.fifteenBreak - s.line19) s.line20 with hroom | hroom
    · rw [max_eq_right (by linarith), min_eq_right (by linarith),
        max_eq_left ((min_le_right _ _).trans hroom), add_zero]
    · rw [max_eq_left (by linarith), max_eq_right (le_min h20 hroom),
        add_comm, ← min_add_add_right]
      congr 1 <;> ring

theorem line28_nonneg (h : s.Ordered) : 0 ≤ s.line28 :=
  le_min (sub_nonneg.mpr (line20_le h)) (dFloorZero_nonneg _)

theorem line31_eq : s.line31 = s.line21 - s.line30 := by
  have h28 : s.line28 ≤ s.line23 := min_le_left _ _
  unfold line31
  refine dFloorZero_of_nonneg ?_
  unfold line30
  unfold line23 at h28
  linarith

/-- What the gains at 25 and 28% lack of being taxed in full. -/
theorem line36_eq : s.line36 = s.line34 - s.ti := by
  refine dFloorZero_of_nonneg ?_
  have h18 : s.line18 ≤ s.line19 := le_max_right _ _
  have hti : s.ti - s.line10 ≤ s.line18 := le_dFloorZero _
  unfold line34
  linarith

/-- The gains at 25 and 28% fill what the ordinary portion leaves. -/
theorem gap_eq : s.line14 - s.line19 = dFloorZero (s.line12 - s.line36) := by
  rw [line36_eq, dFloorZero_eq]
  have h13 : s.line13 = s.line10 - s.line12 := rfl
  have h34 : s.line34 = s.line10 + s.line19 := rfl
  have h19 := line19_le (s := s)
  have h0 := line19_nonneg (s := s)
  have hti : s.ti - s.line13 ≤ s.line14 := le_dFloorZero _
  rcases le_total s.ti s.line13 with h | h
  · have h14 : s.line14 = 0 := by
      rw [line14_eq, line21, min_eq_left h, sub_self]
    rw [max_eq_right (by linarith)]
    linarith
  · have h14 : s.line14 = s.ti - s.line13 := by
      rw [line14_eq, line21, min_eq_right h]
    rw [max_eq_left (by linarith)]
    linarith

theorem line33_le : s.line33 ≤ s.line12 :=
  min_le_min_left _ (le_add_of_nonneg_right (dFloorZero_nonneg _))

theorem line37_le : s.line37 ≤ s.line14 - s.line19 := by
  rw [gap_eq]
  exact dFloorZero_mono (sub_le_sub_right line33_le _)

theorem line40_eq : s.line40 = s.line14 - s.line19 - s.line37 := by
  have h37 := line37_le (s := s)
  have h31 := line31_eq (s := s)
  have h14 := line14_eq (s := s)
  unfold line40
  split_ifs with hcoll
  · unfold line30 at h31
    have h39 : s.ti - s.line39 = s.line14 - s.line19 - s.line37 := by
      unfold line39
      linarith
    rw [h39]
    exact dFloorZero_of_nonneg (by linarith)
  · have hfloor : dFloorZero s.coll = 0 := by
      rw [dFloorZero_eq, max_eq_right (not_lt.mp hcoll)]
    have h33 : s.line33 = s.line12 := by
      unfold line33 line12 line11
      rw [hfloor, add_zero]
    unfold line37
    rw [gap_eq, h33, sub_self]

/-- The portions come to the taxable income. -/
theorem portions_sum :
    s.line19 + s.line20 + s.line28 + s.line31 + s.line37 + s.line40 = s.ti := by
  have h31 := line31_eq (s := s)
  have h40 := line40_eq (s := s)
  have h14 := line14_eq (s := s)
  unfold line30 at h31
  linarith

theorem line40_le_coll (hcoll : 0 ≤ s.coll) : s.line40 ≤ s.coll := by
  have h33 : s.line12 ≤ s.line33 + s.coll := by
    unfold line12 line33 line11
    rw [dFloorZero_of_nonneg hcoll, ← min_add_add_right]
    exact min_le_min_right _ (le_add_of_nonneg_right hcoll)
  rw [line40_eq, gap_eq, dFloorZero_eq, sub_le_iff_le_add]
  refine max_le ?_ (add_nonneg hcoll (dFloorZero_nonneg _))
  have h37 : s.line33 - s.line36 ≤ s.line37 := le_dFloorZero _
  linarith

theorem line37_le_unrecap (hunrecap : 0 ≤ s.unrecap) : s.line37 ≤ s.unrecap := by
  have h33 : s.line33 ≤ s.unrecap := by
    unfold line33
    rw [dFloorZero_of_nonneg hunrecap]
    exact min_le_right _ _
  have h36 : 0 ≤ s.line36 := dFloorZero_nonneg _
  exact dFloorZero_le (by linarith) hunrecap

/-- The same worksheet with more taxable income. -/
structure Rises (s s' : ScheduleD) : Prop where
  ti : s.ti ≤ s'.ti
  same : s' = { s with ti := s'.ti }

namespace Rises

variable (h : Rises s s')
include h

theorem line10_eq : s'.line10 = s.line10 := by rw [h.same]; rfl

theorem line12_eq : s'.line12 = s.line12 := by rw [h.same]; rfl

theorem line13_eq : s'.line13 = s.line13 := by rw [h.same]; rfl

theorem line33_eq : s'.line33 = s.line33 := by rw [h.same]; rfl

theorem fifteenBreak_eq : s'.fifteenBreak = s.fifteenBreak := by rw [h.same]

theorem line14_mono : s.line14 ≤ s'.line14 := by
  unfold line14
  rw [h.line13_eq]
  exact dFloorZero_mono (sub_le_sub_right h.ti _)

theorem line21_mono : s.line21 ≤ s'.line21 := by
  unfold line21
  rw [h.line13_eq]
  exact min_le_min_right _ h.ti

theorem line16_mono : s.line16 ≤ s'.line16 := by
  unfold line16
  rw [h.same]
  exact min_le_min_right _ h.ti

theorem line19_mono : s.line19 ≤ s'.line19 := by
  refine max_le_max (min_le_min h.line14_mono h.line16_mono) ?_
  unfold line18
  rw [h.line10_eq]
  exact dFloorZero_mono (sub_le_sub_right h.ti _)

theorem line16_rise : s'.line16 ≤ s.line16 + (s'.ti - s.ti) := by
  have hti := h.ti
  unfold line16
  rw [h.same, ← min_add_add_right]
  exact min_le_min (by simp only; linarith) (by simp only; linarith)

/-- The ordinary portion rises by no more than the taxable income. -/
theorem line19_rise : s'.line19 ≤ s.line19 + (s'.ti - s.ti) := by
  have hti := h.ti
  have h14 : s'.line14 ≤ s.line14 + (s'.ti - s.ti) := by
    unfold line14
    rw [h.line13_eq]
    refine dFloorZero_le ?_ (add_nonneg (dFloorZero_nonneg _) (by linarith))
    linarith [le_dFloorZero (s.ti - s.line13)]
  have h17 : s'.line17 ≤ s.line17 + (s'.ti - s.ti) := by
    unfold line17
    rw [← min_add_add_right]
    exact min_le_min h14 h.line16_rise
  have h18 : s'.line18 ≤ s.line18 + (s'.ti - s.ti) := by
    unfold line18
    rw [h.line10_eq]
    refine dFloorZero_le ?_ (add_nonneg (dFloorZero_nonneg _) (by linarith))
    linarith [le_dFloorZero (s.ti - s.line10)]
  unfold line19
  rw [← max_add_add_right]
  exact max_le_max h17 h18

theorem line36_anti : s'.line36 ≤ s.line36 := by
  have h19 := h.line19_rise
  rw [line36_eq, line36_eq, line34, line34, h.line10_eq]
  linarith

theorem line37_mono : s.line37 ≤ s'.line37 := by
  unfold line37
  rw [h.line33_eq]
  exact dFloorZero_mono (sub_le_sub_left h.line36_anti _)

theorem line40_mono : s.line40 ≤ s'.line40 := by
  have h36 := h.line36_anti
  have h33 := line33_le (s := s)
  rw [line40_eq, line40_eq, gap_eq, gap_eq, line37, line37, h.line12_eq, h.line33_eq]
  simp only [dFloorZero_eq]
  rcases le_total (s.line33 - s.line36) 0 with hnone | hsome
  · rw [max_eq_right hnone]
    rcases le_total (s.line33 - s'.line36) 0 with hnone' | hsome'
    · rw [max_eq_right hnone']
      linarith [max_le_max_right 0 (sub_le_sub_left h36 s.line12)]
    · rw [max_eq_left hsome', max_eq_left (a := s.line12 - s'.line36) (by linarith), sub_zero]
      refine max_le ?_ ?_ <;> linarith
  · rw [max_eq_left hsome, max_eq_left (a := s.line33 - s'.line36) (by linarith),
      max_eq_left (a := s.line12 - s.line36) (by linarith),
      max_eq_left (a := s.line12 - s'.line36) (by linarith)]
    linarith

/-- Of the gains that come in at 0, 15 and 20%, no more are taxed at 0% than come in. -/
theorem line20_rise : s'.line20 - s.line20 ≤ s'.line21 - s.line21 := by
  have h16 := h.line16_rise
  have h14 := line14_eq (s := s)
  have h14' := line14_eq (s := s')
  have h21 := h.line21_mono
  have h20 : s'.line20 ≤ s.line20 + (s'.line21 - s.line21) := by
    rw [line20_eq, line20_eq]
    refine dFloorZero_le ?_ (add_nonneg (dFloorZero_nonneg _) (by linarith))
    linarith [le_dFloorZero (s.line16 - s.line14)]
  linarith

/-- Nor more at 0 and 15%. -/
theorem lowRates_rise (hs : s.Ordered) (hs' : s'.Ordered) :
    s'.line30 - s.line30 ≤ s'.line21 - s.line21 := by
  have h20 := h.line20_rise
  have h19 := h.line19_mono
  have h21 := h.line21_mono
  have h30 : s'.line30 ≤ s.line30 + (s'.line21 - s.line21) := by
    rw [line30_eq hs, line30_eq hs', h.fifteenBreak_eq, ← max_add_add_right, ← min_add_add_right]
    exact max_le_max (by linarith) (min_le_min (by linarith) (by linarith))
  linarith

end Rises

end ScheduleD

section Worksheet

variable {p : RegularTaxParameters} {b0 b1 r0 r15 r20 ti ti' qd netLtcg unrecap coll : Dec}

/-- Brackets that ascend, breakpoints that ascend, and rates of gains that ascend, none negative. -/
structure RegularTaxParameters.Sound (p : RegularTaxParameters) (b0 b1 r0 r15 r20 : Dec) :
    Prop where
  ascends : p.brackets ≠ [] ∧ Ascends 0 p.brackets
  bracketRates : ∀ b ∈ p.brackets, 0 ≤ b.rate
  breakpoints : p.breakpoints[0]? = some b0 ∧ p.breakpoints[1]? = some b1
  breakpointsAscend : 0 ≤ b0 ∧ b0 ≤ b1
  rates : p.rates[0]? = some r0 ∧ p.rates[1]? = some r15 ∧ p.rates.getLast? = some r20
  ratesAscend : 0 ≤ r0 ∧ r0 ≤ r15 ∧ r15 ≤ r20
  rate25 : 0 ≤ p.rate25
  rate28 : 0 ≤ p.rate28

theorem ScheduleD.worksheet_some (h : p.Sound b0 b1 r0 r15 r20) :
    ∃ w, capitalGainWorksheet ti qd netLtcg unrecap coll p = some w ∧
      w.ordinaryPortion = (ScheduleD.mk ti qd netLtcg unrecap coll b0 b1).line19 ∧
      w.taxedAtZero = (ScheduleD.mk ti qd netLtcg unrecap coll b0 b1).line20 ∧
      w.taxedAtFifteen = (ScheduleD.mk ti qd netLtcg unrecap coll b0 b1).line28 ∧
      w.taxedAtTwenty = (ScheduleD.mk ti qd netLtcg unrecap coll b0 b1).line31 ∧
      w.taxedAtTwentyFive = (ScheduleD.mk ti qd netLtcg unrecap coll b0 b1).line37 ∧
      w.taxedAtTwentyEight = (ScheduleD.mk ti qd netLtcg unrecap coll b0 b1).line40 ∧
      w.worksheetTax = bracketTax w.ordinaryPortion p.brackets + (w.taxedAtZero * r0 +
        w.taxedAtFifteen * r15 + w.taxedAtTwenty * r20 + w.taxedAtTwentyFive * p.rate25 +
        w.taxedAtTwentyEight * p.rate28) ∧
      w.allOrdinaryTax = bracketTax ti p.brackets := by
  unfold capitalGainWorksheet
  rw [h.breakpoints.1, h.breakpoints.2, h.rates.1, h.rates.2.1, h.rates.2.2]
  exact ⟨_, rfl, rfl, rfl, rfl, rfl, rfl, rfl, rfl, rfl⟩

/-- The portions of the taxable income at their rates. -/
def WorksheetExact.portions (w : WorksheetExact) : List Dec :=
  [w.ordinaryPortion, w.taxedAtZero, w.taxedAtFifteen, w.taxedAtTwenty, w.taxedAtTwentyFive,
    w.taxedAtTwentyEight]

theorem portions_nonneg (h : p.Sound b0 b1 r0 r15 r20) (hti : 0 ≤ ti)
    {w : WorksheetExact} (hw : capitalGainWorksheet ti qd netLtcg unrecap coll p = some w) :
    ∀ x ∈ w.portions, 0 ≤ x := by
  obtain ⟨_, hw', h19, h20, h28, h31, h37, h40, -⟩ := ScheduleD.worksheet_some h
  obtain rfl := Option.some.inj (hw.symm.trans hw')
  set s := ScheduleD.mk ti qd netLtcg unrecap coll b0 b1
  have hs : s.Ordered := ⟨hti, h.breakpointsAscend.1, h.breakpointsAscend.2⟩
  have h40' : 0 ≤ s.line40 := by
    rw [ScheduleD.line40_eq]
    exact sub_nonneg.mpr ScheduleD.line37_le
  unfold WorksheetExact.portions
  rw [h19, h20, h28, h31, h37, h40]
  simp only [List.forall_mem_cons, List.not_mem_nil, false_imp_iff, implies_true, and_true]
  refine ⟨ScheduleD.line19_nonneg, ?_, ScheduleD.line28_nonneg hs, dFloorZero_nonneg _,
    dFloorZero_nonneg _, h40'⟩
  rw [ScheduleD.line20_eq]
  exact dFloorZero_nonneg _

theorem portions_total (h : p.Sound b0 b1 r0 r15 r20)
    {w : WorksheetExact} (hw : capitalGainWorksheet ti qd netLtcg unrecap coll p = some w) :
    w.portions.sum = ti := by
  obtain ⟨_, hw', h19, h20, h28, h31, h37, h40, -⟩ := ScheduleD.worksheet_some h
  obtain rfl := Option.some.inj (hw.symm.trans hw')
  have hsum := ScheduleD.portions_sum (s := ⟨ti, qd, netLtcg, unrecap, coll, b0, b1⟩)
  unfold WorksheetExact.portions
  rw [h19, h20, h28, h31, h37, h40]
  simp only [List.sum_cons, List.sum_nil, add_zero]
  linarith

/-- As the taxable income rises, so does the tax of the worksheet. -/
theorem worksheetTax_mono (h : p.Sound b0 b1 r0 r15 r20) (hti : 0 ≤ ti) (hle : ti ≤ ti')
    {w w' : WorksheetExact} (hw : capitalGainWorksheet ti qd netLtcg unrecap coll p = some w)
    (hw' : capitalGainWorksheet ti' qd netLtcg unrecap coll p = some w') :
    w.worksheetTax ≤ w'.worksheetTax := by
  obtain ⟨_, heq, h19, h20, h28, h31, h37, h40, htax, -⟩ := ScheduleD.worksheet_some h
  obtain rfl := Option.some.inj (hw.symm.trans heq)
  obtain ⟨_, heq', h19', h20', h28', h31', h37', h40', htax', -⟩ := ScheduleD.worksheet_some h
  obtain rfl := Option.some.inj (hw'.symm.trans heq')
  set s := ScheduleD.mk ti qd netLtcg unrecap coll b0 b1
  set s' := ScheduleD.mk ti' qd netLtcg unrecap coll b0 b1
  have hs : s.Ordered := ⟨hti, h.breakpointsAscend.1, h.breakpointsAscend.2⟩
  have hs' : s'.Ordered := ⟨hti.trans hle, h.breakpointsAscend.1, h.breakpointsAscend.2⟩
  have hrise : s.Rises s' := ⟨hle, rfl⟩
  have hordinary := bracketTax_mono h.ascends.2 h.bracketRates hrise.line19_mono
  have h25 := mul_le_mul_of_nonneg_right hrise.line37_mono h.rate25
  have h28g := mul_le_mul_of_nonneg_right hrise.line40_mono h.rate28
  -- the gains at 0, 15 and 20%, as if all were taxed at 20% less what the lower rates save
  have hall := mul_nonneg (sub_nonneg.mpr hrise.line21_mono) h.ratesAscend.1
  have hzero := mul_nonneg (sub_nonneg.mpr hrise.line20_rise) (sub_nonneg.mpr h.ratesAscend.2.1)
  have hlow := mul_nonneg (sub_nonneg.mpr (hrise.lowRates_rise hs hs'))
    (sub_nonneg.mpr h.ratesAscend.2.2)
  rw [htax, htax', h19, h20, h28, h31, h37, h40, h19', h20', h28', h31', h37', h40',
    ScheduleD.line31_eq, ScheduleD.line31_eq]
  unfold ScheduleD.line30 at hlow ⊢
  linarith

theorem worksheetTax_nonneg (h : p.Sound b0 b1 r0 r15 r20) (hti : 0 ≤ ti) {w : WorksheetExact}
    (hw : capitalGainWorksheet ti qd netLtcg unrecap coll p = some w) :
    0 ≤ min w.worksheetTax w.allOrdinaryTax := by
  obtain ⟨_, heq, -, -, -, -, -, -, htax, hall⟩ := ScheduleD.worksheet_some h
  obtain rfl := Option.some.inj (hw.symm.trans heq)
  have hparts := portions_nonneg h hti hw
  unfold WorksheetExact.portions at hparts
  simp only [List.forall_mem_cons, List.not_mem_nil, false_imp_iff, implies_true,
    and_true] at hparts
  obtain ⟨h19, h20, h28, h31, h37, h40⟩ := hparts
  have hbracket : ∀ {x : Dec}, 0 ≤ x → 0 ≤ bracketTax x p.brackets :=
    fun hx => bracketTax_mono h.ascends.2 h.bracketRates hx
  obtain ⟨hr0, hr15, hr20⟩ := h.ratesAscend
  rw [htax, hall]
  refine le_min (add_nonneg (hbracket h19) ?_) (hbracket hti)
  have := mul_nonneg h20 hr0
  have := mul_nonneg h28 (hr0.trans hr15)
  have := mul_nonneg h31 (hr0.trans (hr15.trans hr20))
  have := mul_nonneg h37 h.rate25
  have := mul_nonneg h40 h.rate28
  linarith

theorem marginalBracketRate_some {brackets : List BracketRow} (h : brackets ≠ []) (income : Dec) :
    ∃ r, marginalBracketRate income brackets = some r := by
  obtain ⟨b, hb⟩ := Option.ne_none_iff_exists'.mp (mt List.getLast?_eq_none_iff.mp h)
  unfold marginalBracketRate
  cases hfind : brackets.find? fun b => b.upper.all fun u => income ≤ u with
  | none => exact ⟨b.rate, by simp [hb]⟩
  | some b' => exact ⟨b'.rate, rfl⟩

/-- Where there are gains and income, the tax is the lesser of the worksheet's and the brackets'. -/
theorem worksheetRegularTax_some (h : p.Sound b0 b1 r0 r15 r20) (input : RegularTaxInput) :
    ∃ w r, capitalGainWorksheet (dFloorZero input.taxableIncome)
        (dFloorZero input.qualifiedDividends) (dFloorZero input.netLongTermGain)
        (dFloorZero input.unrecaptured1250) (dFloorZero input.collectibles) p = some w ∧
      worksheetRegularTax input p = some r ∧ r.tax = min w.worksheetTax w.allOrdinaryTax := by
  have hsome : ∃ w, capitalGainWorksheet (dFloorZero input.taxableIncome)
      (dFloorZero input.qualifiedDividends) (dFloorZero input.netLongTermGain)
      (dFloorZero input.unrecaptured1250) (dFloorZero input.collectibles) p = some w := by
    obtain ⟨w, hw, -⟩ := ScheduleD.worksheet_some h
    exact ⟨w, hw⟩
  obtain ⟨w, hw⟩ := hsome
  obtain ⟨marginal, hmarginal⟩ := marginalBracketRate_some h.ascends.1 w.ordinaryPortion
  have hgain : ∃ rate, marginalCapitalGainRate w p.rates = some rate := by
    unfold marginalCapitalGainRate
    rw [h.rates.1, h.rates.2.1, h.rates.2.2]
    split_ifs <;> exact ⟨_, rfl⟩
  obtain ⟨rate, hrate⟩ := hgain
  have hrun : ∃ r, worksheetRegularTax input p = some r ∧
      r.tax = min w.worksheetTax w.allOrdinaryTax := by
    unfold worksheetRegularTax
    simp only [hw, hmarginal, hrate, Option.bind_eq_bind, Option.bind_some]
    exact ⟨_, rfl, rfl⟩
  obtain ⟨r, hr⟩ := hrun
  exact ⟨w, r, hw, hr⟩

theorem ordinaryRegularTax_some (h : p.Sound b0 b1 r0 r15 r20) (input : RegularTaxInput) :
    ∃ r, ordinaryRegularTax input p = some r ∧
      r.tax = bracketTax (dFloorZero input.taxableIncome) p.brackets := by
  obtain ⟨marginal, hmarginal⟩ :=
    marginalBracketRate_some h.ascends.1 (dFloorZero input.taxableIncome)
  unfold ordinaryRegularTax
  simp only [hmarginal]
  exact ⟨_, rfl, rfl⟩

theorem computeRegularTax_mono (h : p.Sound b0 b1 r0 r15 r20) {input : RegularTaxInput}
    (hmode : input.rateMode = .brackets) (hle : input.taxableIncome ≤ ti) :
    ∃ r r', computeRegularTax input p = some r ∧
      computeRegularTax { input with taxableIncome := ti } p = some r' ∧ r.tax ≤ r'.tax := by
  have hrun : ∀ input : RegularTaxInput, input.rateMode = .brackets →
      computeRegularTax input p = if 0 < dFloorZero input.taxableIncome ∧
          (0 < dFloorZero input.qualifiedDividends ∨ 0 < dFloorZero input.netLongTermGain)
        then worksheetRegularTax input p else ordinaryRegularTax input p := by
    intro input hmode
    unfold computeRegularTax
    rw [hmode]
  rw [hrun input hmode, hrun { input with taxableIncome := ti } hmode]
  have hpos := dFloorZero_mono hle
  obtain ⟨r, hr, htax⟩ := ordinaryRegularTax_some h input
  obtain ⟨r', hr', htax'⟩ := ordinaryRegularTax_some h { input with taxableIncome := ti }
  obtain ⟨w, g, hw, hg, hgtax⟩ := worksheetRegularTax_some h input
  obtain ⟨w', g', hw', hg', hgtax'⟩ :=
    worksheetRegularTax_some h { input with taxableIncome := ti }
  split_ifs with hgains hgains' hgains'
  · refine ⟨g, g', hg, hg', ?_⟩
    rw [hgtax, hgtax']
    have hall := bracketTax_mono h.ascends.2 h.bracketRates hpos
    obtain ⟨_, heq, -, -, -, -, -, -, -, hord⟩ := ScheduleD.worksheet_some h
    obtain rfl := Option.some.inj (hw.symm.trans heq)
    obtain ⟨_, heq', -, -, -, -, -, -, -, hord'⟩ := ScheduleD.worksheet_some h
    obtain rfl := Option.some.inj (hw'.symm.trans heq')
    rw [hord, hord']
    exact min_le_min (worksheetTax_mono h (dFloorZero_nonneg _) hpos hw hw') hall
  · exact absurd ⟨hgains.1.trans_le hpos, hgains.2⟩ hgains'
  · -- with gains but no income before, nothing was taxed
    refine ⟨r, g', hr, hg', ?_⟩
    have hnone : dFloorZero input.taxableIncome = 0 :=
      le_antisymm (not_lt.mp fun hlt => hgains ⟨hlt, hgains'.2⟩) (dFloorZero_nonneg _)
    rw [htax, hgtax', hnone]
    exact worksheetTax_nonneg h (dFloorZero_nonneg _) hw'
  · refine ⟨r, r', hr, hr', ?_⟩
    rw [htax, htax']
    exact bracketTax_mono h.ascends.2 h.bracketRates hpos

/-- The capital gain worksheet splits the taxable income into portions that are not negative, with
no more at 28 and 25% than the collectibles and unrecaptured gains; and as the taxable income rises
with the gains held, the lesser of the worksheet's tax and the brackets' does not fall, nor does the
regular tax. -/
theorem gains_partitioned (qd netLtcg : Dec) (hunrecap : 0 ≤ unrecap) (hcoll : 0 ≤ coll)
    (h : p.Sound b0 b1 r0 r15 r20) :
    (∀ ti, 0 ≤ ti → ∃ w, capitalGainWorksheet ti qd netLtcg unrecap coll p = some w ∧
      (∀ x ∈ w.portions, 0 ≤ x) ∧ w.portions.sum = ti ∧
      w.taxedAtTwentyEight ≤ coll ∧ w.taxedAtTwentyFive ≤ unrecap) ∧
    (∀ ti ti' w w', 0 ≤ ti → ti ≤ ti' →
      capitalGainWorksheet ti qd netLtcg unrecap coll p = some w →
      capitalGainWorksheet ti' qd netLtcg unrecap coll p = some w' →
      min w.worksheetTax w.allOrdinaryTax ≤ min w'.worksheetTax w'.allOrdinaryTax) ∧
    ∀ (input : RegularTaxInput) (ti : Dec), input.rateMode = .brackets → input.taxableIncome ≤ ti →
      ∃ r r', computeRegularTax input p = some r ∧
        computeRegularTax { input with taxableIncome := ti } p = some r' ∧ r.tax ≤ r'.tax := by
  refine ⟨fun ti hti => ?_, fun ti ti' w w' hti hle hw hw' => ?_,
    fun input ti hmode hle => computeRegularTax_mono h hmode hle⟩
  · obtain ⟨w, hw, -, -, -, -, h25, h28, -⟩ := ScheduleD.worksheet_some h
    refine ⟨w, hw, portions_nonneg h hti hw, portions_total h hw, ?_, ?_⟩
    · rw [h28]
      exact ScheduleD.line40_le_coll hcoll
    · rw [h25]
      exact ScheduleD.line37_le_unrecap hunrecap
  · have hmono := worksheetTax_mono h hti hle hw hw'
    have hall := bracketTax_mono h.ascends.2 h.bracketRates hle
    obtain ⟨_, heq, -, -, -, -, -, -, -, hord⟩ := ScheduleD.worksheet_some h
    obtain rfl := Option.some.inj (hw.symm.trans heq)
    obtain ⟨_, heq', -, -, -, -, -, -, -, hord'⟩ := ScheduleD.worksheet_some h
    obtain rfl := Option.some.inj (hw'.symm.trans heq')
    rw [hord, hord']
    exact min_le_min hmono hall

/-- Two brackets, breakpoints at 50 and 500 thousand, and the five rates of gains. -/
def sampleParameters : RegularTaxParameters where
  brackets := [⟨some 20000, 1 / 10⟩, ⟨none, 22 / 100⟩]
  breakpoints := [50000, 500000]
  rates := [0, 15 / 100, 20 / 100]
  rate25 := 25 / 100
  rate28 := 28 / 100

theorem sampleParameters_sound :
    sampleParameters.Sound 50000 500000 0 (15 / 100) (20 / 100) := by
  refine ⟨⟨by decide, ?_⟩, by decide +kernel, ⟨rfl, rfl⟩, by norm_num, ⟨rfl, rfl, rfl⟩,
    by norm_num, ?_, ?_⟩
  · rintro u ⟨⟩
    exact ⟨by norm_num, by rintro u ⟨⟩⟩
  · norm_num [sampleParameters]
  · norm_num [sampleParameters]

/-- Gains held while the income is raised. -/
def sampleInput : RegularTaxInput where
  taxableIncome := 110000
  qualifiedDividends := 2000
  netLongTermGain := 60000
  unrecaptured1250 := 15000
  collectibles := 5000
  rateMode := .brackets
  effectiveRateOverride := none

theorem sample_partitioned :
    (∃ w w', capitalGainWorksheet 110000 2000 60000 15000 5000 sampleParameters = some w ∧
      capitalGainWorksheet 130000 2000 60000 15000 5000 sampleParameters = some w' ∧
      w.portions = [50000, 0, 42000, 0, 13000, 5000] ∧ w.portions.sum = 110000 ∧
      min w.worksheetTax w.allOrdinaryTax < min w'.worksheetTax w'.allOrdinaryTax) ∧
      ∃ r r', computeRegularTax sampleInput sampleParameters = some r ∧
        computeRegularTax { sampleInput with taxableIncome := 130000 } sampleParameters = some r' ∧
          r.tax ≤ r'.tax := by
  obtain ⟨hall, hmono, hregular⟩ := gains_partitioned 2000 60000 (show (0 : Dec) ≤ 15000 by norm_num)
    (show (0 : Dec) ≤ 5000 by norm_num) sampleParameters_sound
  obtain ⟨w, hw, -, hsum, -⟩ := hall 110000 (by norm_num)
  obtain ⟨w', hw', -⟩ := hall 130000 (by norm_num)
  have hportions : (capitalGainWorksheet 110000 2000 60000 15000 5000 sampleParameters).map
      (·.portions) = some [50000, 0, 42000, 0, 13000, 5000] := by decide +kernel
  have hapart : (capitalGainWorksheet 110000 2000 60000 15000 5000 sampleParameters).map
      (fun w => min w.worksheetTax w.allOrdinaryTax) ≠
        (capitalGainWorksheet 130000 2000 60000 15000 5000 sampleParameters).map
          fun w => min w.worksheetTax w.allOrdinaryTax := by decide +kernel
  rw [hw] at hportions
  rw [hw, hw'] at hapart
  have hle := hmono 110000 130000 w w' (by norm_num) (by norm_num) hw hw'
  exact ⟨⟨w, w', hw, hw', Option.some.inj hportions, hsum,
    lt_of_le_of_ne hle fun heq => hapart (congrArg some heq)⟩,
    hregular sampleInput 130000 rfl (by norm_num [sampleInput])⟩

end Worksheet

end MyBooks
