import MyBooks.EstimatedPayments
import MyBooks.Result
import MyBooks.TaxDecimals

/-!
# Annualized installments

Schedule AI sets each installment to the lesser of what the tax of the year so far asks for and the
regular installment with what earlier columns skipped. `ColumnOf` is what a column has of its inputs,
`Recaptures` what holds of it against the columns before it, and `computeScheduleAi_recaptures` says
that both hold of every one.
-/

namespace MyBooks

structure SePerson where
  seIncome : Dec
  socialSecurityWages : Dec

/-- What the columns read of a priced scenario. -/
structure PricedScenario where
  seTax : Dec
  federalTotal : Dec
  persons : List SePerson

structure SeParameters where
  neseFactor : Dec
  ssRate : Dec
  medicareRate : Dec
  wageBase : Dec

/-- The parameters of a policy's periods; `months` is missing where there is no SE tax. -/
structure SchAiPeriods where
  label : String
  periodEnds : List String
  factors : List Dec
  applicablePcts : List Dec
  months : Option (List ℕ)

variable {Scenario : Type}

/-- The inputs, with the engine as `calcFederal`. -/
structure ScheduleAiInput (Scenario : Type) where
  base : Scenario
  baseResult : Option PricedScenario
  periodActuals : List (Option Scenario)
  requiredAnnualPayment : Dec
  installmentPcts : List Dec
  calcFederal : Scenario → PricedScenario

structure SchAiPeriodExact where
  totalTax : Dec
  line22 : Dec
  line23 : Dec
  line24 : Dec
  line25 : Dec
  line26 : Dec
  line27 : Dec

structure SchAiPeriodResult where
  period : ℕ
  available : Bool
  isProjection : Bool
  requiredCumulative : Dec
  annualizedInstallment : Dec
  regularInstallment : Dec
  regularWithRecapture : Dec
  requiredInstallment : Dec
  usedAnnualized : Bool
  exact : SchAiPeriodExact

structure ScheduleAiResult where
  periods : List SchAiPeriodResult
  requiredInstallments : List Dec
  lowersAnyInstallment : Bool

/-- The values that go from one column to the next. -/
structure SchAiLoop where
  periods : List SchAiPeriodResult
  cumulativeLine27 : Dec
  priorLine26 : Dec
  priorLine27 : Dec
  lowersAny : Bool

/-- Part II for one person, as the annualized SE tax. -/
def annualizedSeTax (p : SeParameters) (factor : Dec) (months : ℕ) (person : SePerson) :
    Except String Dec := do
  if factor = 0 then throw "decimal: division by zero"
  let prorated := dDiv (p.wageBase * months) 12
  let periodSeIncome := dDiv person.seIncome factor
  let periodNese := if 0 < periodSeIncome then periodSeIncome * p.neseFactor else 0
  let periodSsWages := dDiv person.socialSecurityWages factor
  let remainingBase := dFloorZero (prorated - periodSsWages)
  let periodSeTax := p.ssRate * min periodNese remainingBase + p.medicareRate * periodNese
  return periodSeTax * factor

/-- The SE tax of a column: Part II's, or the engine's where there is none. -/
def partIiSeTax (p : SeParameters) (factor : Dec) (months : Option ℕ) (result : PricedScenario) :
    Except String Dec :=
  match months with
  | none => .ok result.seTax
  | some m => List.sum <$> result.persons.mapM (annualizedSeTax p factor m)

theorem partIiSeTax_ok (p : SeParameters) {factor : Dec} (hfactor : factor ≠ 0) (months : Option ℕ)
    (result : PricedScenario) : ∃ tax, partIiSeTax p factor months result = .ok tax := by
  cases months with
  | none => exact ⟨_, rfl⟩
  | some m =>
    have hperson : ∀ person ∈ result.persons,
        ∃ tax, annualizedSeTax p factor m person = .ok tax := by
      intro person _
      unfold annualizedSeTax
      rw [if_neg hfactor]
      exact ⟨_, rfl⟩
    obtain ⟨taxes, htaxes⟩ := mapM_succeeds hperson
    exact ⟨taxes.sum, by rw [partIiSeTax, htaxes]; rfl⟩

section Columns

/- A period's figures as a full year's, with the credits of the year. -/
variable (annualize : Scenario → Dec → Option ℕ → Scenario)
  (withFixedDependentCredits : Scenario → PricedScenario → Scenario)
  (se : SeParameters) (p : SchAiPeriods) (input : ScheduleAiInput Scenario)

def ScheduleAiInput.fullYear : PricedScenario :=
  input.baseResult.getD (input.calcFederal input.base)

/-- Line 21 of a column that is there: the engine's total, its SE tax swapped for Part II's. -/
def columnTax (i : ℕ) (isLast : Bool) (actuals : Scenario) : Except String Dec := do
  let factor := p.factors.getD i 0
  let months := p.months.map fun ms => ms.getD i 0
  let scenario :=
    if isLast then actuals
    else withFixedDependentCredits (annualize actuals factor months) input.fullYear
  let result :=
    if isLast then input.baseResult.getD (input.calcFederal scenario)
    else input.calcFederal scenario
  let seTax ← partIiSeTax se factor months result
  return result.federalTotal - result.seTax + seTax

/-- One turn of the loop, at column `i`. -/
def scheduleAiColumn (st : SchAiLoop) (i : ℕ) : Except String SchAiLoop := do
  let isLast := decide (i + 1 = p.periodEnds.length)
  let line25 := input.requiredAnnualPayment * input.installmentPcts.getD i 0
  let line26 := if i = 0 then line25 else line25 + (st.priorLine26 - st.priorLine27)
  match if isLast then some input.base else input.periodActuals.getD i none with
  | none =>
    return ⟨st.periods ++ [{
        period := i + 1
        available := false
        isProjection := false
        requiredCumulative := 0
        annualizedInstallment := dRoundDollars line26
        regularInstallment := dRoundDollars line25
        regularWithRecapture := dRoundDollars line26
        requiredInstallment := dRoundDollars line26
        usedAnnualized := false
        exact := ⟨0, 0, st.cumulativeLine27, line26, line25, line26, line26⟩ }],
      st.cumulativeLine27 + line26, line26, line26, st.lowersAny⟩
  | some actuals =>
    let totalTax ← columnTax annualize withFixedDependentCredits se p input i isLast actuals
    let line22 := totalTax * p.applicablePcts.getD i 0
    let line23 := st.cumulativeLine27
    let line24 := dFloorZero (line22 - line23)
    let line27 := min line24 line26
    let usedAnnualized := decide (line24 < line26)
    return ⟨st.periods ++ [{
        period := i + 1
        available := true
        isProjection := isLast
        requiredCumulative := dRoundDollars line22
        annualizedInstallment := dRoundDollars line24
        regularInstallment := dRoundDollars line25
        regularWithRecapture := dRoundDollars line26
        requiredInstallment := dRoundDollars line27
        usedAnnualized := usedAnnualized
        exact := ⟨totalTax, line22, line23, line24, line25, line26, line27⟩ }],
      st.cumulativeLine27 + line27, line26, line27, st.lowersAny || usedAnnualized⟩

def computeScheduleAi : Except String ScheduleAiResult := do
  let n := p.periodEnds.length
  if p.factors.length ≠ n ∨ p.applicablePcts.length ≠ n ∨ (∃ ms ∈ p.months, ms.length ≠ n) ∨
      input.installmentPcts.length ≠ n then
    throw (s!"TE_SCH_AI_SHAPE: {p.label} period parameters and installment percentages " ++
      "must have the same length")
  let st ← (List.range n).foldlM
    (scheduleAiColumn annualize withFixedDependentCredits se p input) ⟨[], 0, 0, 0, false⟩
  return ⟨st.periods, st.periods.map (·.requiredInstallment), st.lowersAny⟩

/-- The figures column `i` is of: the year's for the last one, else the period's, if there are any. -/
def columnActuals (i : ℕ) : Option Scenario :=
  if i + 1 = p.periodEnds.length then some input.base else input.periodActuals.getD i none

/-- What column `i` has of its inputs. -/
structure ColumnOf (i : ℕ) (c : SchAiPeriodResult) : Prop where
  available : c.available = (columnActuals p input i).isSome
  line22 : ∀ actuals, columnActuals p input i = some actuals →
    ∃ tax, columnTax annualize withFixedDependentCredits se p input i
        (decide (i + 1 = p.periodEnds.length)) actuals = .ok tax ∧
      c.exact.totalTax = tax ∧ c.exact.line22 = tax * p.applicablePcts.getD i 0
  line25 : c.exact.line25 = input.requiredAnnualPayment * input.installmentPcts.getD i 0

end Columns

/-! ## Recapture -/

/-- A line over the columns so far. -/
def cumulative (line : SchAiPeriodExact → Dec) (columns : List SchAiPeriodResult) : Dec :=
  (columns.map fun c => line c.exact).sum

/-- What a column `c` asks for behind the columns `before` it. -/
structure Recaptures (before : List SchAiPeriodResult) (c : SchAiPeriodResult) : Prop where
  nonneg : 0 ≤ c.exact.line27
  required : cumulative (·.line27) (before ++ [c]) =
    if c.available then
      min (cumulative (·.line25) (before ++ [c]))
        (max (cumulative (·.line27) before) c.exact.line22)
    else cumulative (·.line25) (before ++ [c])
  skipped : cumulative (·.line27) (before ++ [c]) + (c.exact.line26 - c.exact.line27) =
    cumulative (·.line25) (before ++ [c])

/-- What the loop has at the top of a turn. -/
structure SchAiLoop.Inv (st : SchAiLoop) : Prop where
  cumulativeLine27 : st.cumulativeLine27 = cumulative (·.line27) st.periods
  regular : st.cumulativeLine27 + (st.priorLine26 - st.priorLine27) =
    cumulative (·.line25) st.periods
  skipped : st.priorLine27 ≤ st.priorLine26
  columns : ∀ before c after, st.periods = before ++ c :: after → Recaptures before c

@[simp] theorem cumulative_append_singleton (line : SchAiPeriodExact → Dec)
    (before : List SchAiPeriodResult) (c : SchAiPeriodResult) :
    cumulative line (before ++ [c]) = cumulative line before + line c.exact := by
  simp [cumulative]

theorem SchAiLoop.Inv.push {st st' : SchAiLoop} {c : SchAiPeriodResult} (h : st.Inv)
    (hperiods : st'.periods = st.periods ++ [c])
    (hcumulative : st'.cumulativeLine27 = st.cumulativeLine27 + c.exact.line27)
    (hprior26 : st'.priorLine26 = c.exact.line26) (hprior27 : st'.priorLine27 = c.exact.line27)
    (hle : c.exact.line27 ≤ c.exact.line26) (hc : Recaptures st.periods c) : st'.Inv := by
  have hcum : st'.cumulativeLine27 = cumulative (·.line27) st'.periods := by
    rw [hcumulative, hperiods, cumulative_append_singleton, h.cumulativeLine27]
  refine ⟨hcum, ?_, ?_, ?_⟩
  · rw [hcum, hperiods, hprior26, hprior27]
    exact hc.skipped
  · rw [hprior26, hprior27]
    exact hle
  · intro before d after hsplit
    rw [hperiods] at hsplit
    rcases List.eq_nil_or_concat after with rfl | ⟨after', e, rfl⟩
    · obtain ⟨rfl, hd⟩ := List.append_inj' hsplit rfl
      exact List.singleton_inj.mp hd ▸ hc
    · have hlast : st.periods ++ [c] = (before ++ d :: after') ++ [e] := by simpa using hsplit
      exact h.columns before d after' (List.append_inj' hlast rfl).1

/-- What a turn computes, in whichever way. -/
structure ColumnLines (st : SchAiLoop) (c : SchAiPeriodResult) : Prop where
  regular : 0 ≤ c.exact.line25
  line26 : c.exact.line26 = c.exact.line25 + (st.priorLine26 - st.priorLine27)
  line27 : c.exact.line27 =
    if c.available then min (dFloorZero (c.exact.line22 - st.cumulativeLine27)) c.exact.line26
    else c.exact.line26

theorem SchAiLoop.Inv.column {st : SchAiLoop} {c : SchAiPeriodResult} (h : st.Inv)
    (hc : ColumnLines st c) :
    c.exact.line27 ≤ c.exact.line26 ∧ Recaptures st.periods c := by
  obtain ⟨h25, h26, h27⟩ := hc
  have hskipped := h.skipped
  have h26nonneg : 0 ≤ c.exact.line26 := by linarith
  have hregular : cumulative (·.line27) st.periods + c.exact.line26 =
      cumulative (·.line25) st.periods + c.exact.line25 := by
    rw [h26, ← h.regular, ← h.cumulativeLine27]
    ring
  rw [h.cumulativeLine27] at h27
  cases havailable : c.available with
  | false =>
    rw [if_neg (by simp [havailable])] at h27
    refine ⟨h27.le, h27.symm ▸ h26nonneg, ?_, ?_⟩
    · rw [if_neg (by simp [havailable]), cumulative_append_singleton, cumulative_append_singleton,
        h27, hregular]
    · rw [cumulative_append_singleton, cumulative_append_singleton, ← hregular]
      ring
  | true =>
    rw [if_pos havailable] at h27
    refine ⟨h27.trans_le (min_le_right _ _), ?_, ?_, ?_⟩
    · rw [h27]
      exact le_min (dFloorZero_nonneg _) h26nonneg
    · rw [if_pos havailable, cumulative_append_singleton, cumulative_append_singleton, h27,
        ← hregular, dFloorZero_eq, ← min_add_add_left, ← max_add_add_left, add_sub_cancel, add_zero,
        min_comm, max_comm]
    · rw [cumulative_append_singleton, cumulative_append_singleton, ← hregular]
      ring

section Loop

variable {annualize : Scenario → Dec → Option ℕ → Scenario}
  {withFixedDependentCredits : Scenario → PricedScenario → Scenario} {se : SeParameters}
  {p : SchAiPeriods} {input : ScheduleAiInput Scenario} {st st' : SchAiLoop} {i : ℕ}

/-- A turn adds one column, with the lines as they should be. -/
theorem scheduleAiColumn_ok
    (h : scheduleAiColumn annualize withFixedDependentCredits se p input st i = .ok st')
    (hstart : i = 0 → st.priorLine26 = st.priorLine27) (hreq : 0 ≤ input.requiredAnnualPayment)
    (hpct : 0 ≤ input.installmentPcts.getD i 0) :
    ∃ c, st'.periods = st.periods ++ [c] ∧ ColumnLines st c ∧
      st'.cumulativeLine27 = st.cumulativeLine27 + c.exact.line27 ∧
        st'.priorLine26 = c.exact.line26 ∧ st'.priorLine27 = c.exact.line27 ∧
          ColumnOf annualize withFixedDependentCredits se p input i c := by
  have hregular := mul_nonneg hreq hpct
  have hline26 : ∀ line25 : Dec,
      (if i = 0 then line25 else line25 + (st.priorLine26 - st.priorLine27)) =
        line25 + (st.priorLine26 - st.priorLine27) := by
    intro line25
    split_ifs with hi
    · rw [hstart hi, sub_self, add_zero]
    · rfl
  have hactuals : (if decide (i + 1 = p.periodEnds.length) = true then some input.base
      else input.periodActuals.getD i none) = columnActuals p input i := by
    simp only [columnActuals, decide_eq_true_eq]
  unfold scheduleAiColumn at h
  simp only [hline26, hactuals] at h
  split at h
  case h_1 hnone =>
    obtain rfl := Except.ok.inj h
    exact ⟨_, rfl, ⟨hregular, rfl, rfl⟩, rfl, rfl, rfl,
      ⟨by rw [hnone]; rfl, fun actuals h => by simp [hnone] at h, rfl⟩⟩
  case h_2 actuals hsome =>
    rw [bind_eq_ok] at h
    obtain ⟨totalTax, htax, h⟩ := h
    obtain rfl := Except.ok.inj h
    refine ⟨_, rfl, ⟨hregular, rfl, rfl⟩, rfl, rfl, rfl, ⟨by rw [hsome]; rfl, ?_, rfl⟩⟩
    intro actuals' h
    obtain rfl := Option.some.inj (hsome.symm.trans h)
    exact ⟨totalTax, htax, rfl, rfl⟩

/-- The loop over the first `n` columns. -/
theorem scheduleAiLoop_inv (hreq : 0 ≤ input.requiredAnnualPayment)
    (hpcts : ∀ j, 0 ≤ input.installmentPcts.getD j 0) : ∀ (n : ℕ) {st : SchAiLoop},
    (List.range n).foldlM (scheduleAiColumn annualize withFixedDependentCredits se p input)
        ⟨[], 0, 0, 0, false⟩ = .ok st →
      st.Inv ∧ (n = 0 → st.priorLine26 = st.priorLine27) ∧ st.periods.length = n ∧
        ∀ j c, st.periods[j]? = some c →
          ColumnOf annualize withFixedDependentCredits se p input j c
  | 0, st, h => by
    obtain rfl := Except.ok.inj h
    exact ⟨⟨rfl, by simp [cumulative], le_rfl, fun _ _ _ hsplit => by simp at hsplit⟩,
      fun _ => rfl, rfl, fun j c hc => by simp at hc⟩
  | n + 1, st, h => by
    rw [List.range_succ, foldlM_append_ok] at h
    obtain ⟨st₁, hfirst, hlast⟩ := h
    obtain ⟨hinv, hstart, hlength, hof⟩ := scheduleAiLoop_inv hreq hpcts n hfirst
    obtain ⟨st₂, hstep, hnil⟩ := foldlM_cons_ok.mp hlast
    obtain rfl := foldlM_nil_ok.mp hnil
    obtain ⟨c, hperiods, hlines, hcum, hprior26, hprior27, hcolumn⟩ :=
      scheduleAiColumn_ok hstep hstart hreq (hpcts n)
    obtain ⟨hle, hc⟩ := hinv.column hlines
    refine ⟨hinv.push hperiods hcum hprior26 hprior27 hle hc, fun hn => (by cases hn), ?_, ?_⟩
    · rw [hperiods, List.length_append, hlength]
      rfl
    · intro j d hj
      rw [hperiods] at hj
      rcases Nat.lt_or_ge j st₁.periods.length with hlt | hge
      · rw [List.getElem?_append_left hlt] at hj
        exact hof j d hj
      · -- the column just added
        rw [List.getElem?_append_right hge, List.getElem?_singleton] at hj
        split_ifs at hj with hzero
        obtain rfl := Option.some.inj hj
        rwa [show j = n by omega]

/-- Schedule AI recaptures what it skips: in every column the installments so far and what is still
skipped are the regular installments so far. A column is of the figures given for its period, and
missing just where there are none. -/
theorem computeScheduleAi_recaptures {result : ScheduleAiResult}
    (hreq : 0 ≤ input.requiredAnnualPayment) (hpcts : ∀ pct ∈ input.installmentPcts, 0 ≤ pct)
    (h : computeScheduleAi annualize withFixedDependentCredits se p input = .ok result) :
    result.periods.length = p.periodEnds.length ∧
      (∀ i c, result.periods[i]? = some c →
        ColumnOf annualize withFixedDependentCredits se p input i c) ∧
      ∀ before c after, result.periods = before ++ c :: after → Recaptures before c := by
  unfold computeScheduleAi at h
  simp only [] at h
  split_ifs at h with hshape
  · cases h
  · rw [bind_eq_ok] at h
    obtain ⟨st, hloop, h⟩ := h
    obtain rfl := Except.ok.inj h
    have hgetD : ∀ j, 0 ≤ input.installmentPcts.getD j 0 := by
      intro j
      rcases Nat.lt_or_ge j input.installmentPcts.length with hj | hj
      · rw [List.getD_eq_getElem?_getD, List.getElem?_eq_getElem hj]
        exact hpcts _ (List.getElem_mem hj)
      · rw [List.getD_eq_getElem?_getD, List.getElem?_eq_none hj]
        exact le_rfl
    obtain ⟨hinv, -, hlength, hof⟩ := scheduleAiLoop_inv hreq hgetD _ hloop
    exact ⟨hlength, hof, hinv.columns⟩

/-- The lists have one length. -/
def SchAiShape (p : SchAiPeriods) (input : ScheduleAiInput Scenario) : Prop :=
  p.factors.length = p.periodEnds.length ∧ p.applicablePcts.length = p.periodEnds.length ∧
    (∀ ms ∈ p.months, ms.length = p.periodEnds.length) ∧
      input.installmentPcts.length = p.periodEnds.length

theorem columnTax_ok (isLast : Bool) (actuals : Scenario) (hfactor : p.factors.getD i 0 ≠ 0) :
    ∃ tax, columnTax annualize withFixedDependentCredits se p input i isLast actuals = .ok tax := by
  unfold columnTax
  dsimp only
  obtain ⟨tax, htax⟩ := partIiSeTax_ok se hfactor (p.months.map fun ms => ms.getD i 0)
    (if isLast then _ else _)
  rw [htax]
  exact ⟨_, rfl⟩

theorem computeScheduleAi_succeeds (hshape : SchAiShape p input)
    (hfactors : ∀ f ∈ p.factors, f ≠ 0) :
    ∃ result, computeScheduleAi annualize withFixedDependentCredits se p input = .ok result := by
  obtain ⟨hf, ha, hm, hi⟩ := hshape
  have hturn : ∀ i ∈ List.range p.periodEnds.length, ∀ st : SchAiLoop, True →
      ∃ st', scheduleAiColumn annualize withFixedDependentCredits se p input st i = .ok st' ∧
        True := by
    intro i hlt st _
    have hi : i < p.factors.length := hf ▸ List.mem_range.mp hlt
    have hfactor : p.factors.getD i 0 ≠ 0 := by
      rw [List.getD_eq_getElem?_getD, List.getElem?_eq_getElem hi]
      exact hfactors _ (List.getElem_mem hi)
    unfold scheduleAiColumn
    dsimp only
    split
    · exact ⟨_, rfl, trivial⟩
    · obtain ⟨tax, htax⟩ := columnTax_ok _ _ hfactor
      rw [htax]
      exact ⟨_, rfl, trivial⟩
  obtain ⟨st, hst, -⟩ := foldlM_succeeds (fun _ => True) hturn trivial
    (b := (⟨[], 0, 0, 0, false⟩ : SchAiLoop))
  unfold computeScheduleAi
  dsimp only
  rw [if_neg (by
    rintro (h | h | ⟨ms, hms, h⟩ | h)
    · exact h hf
    · exact h ha
    · exact h (hm ms hms)
    · exact h hi), hst]
  exact ⟨_, rfl⟩

end Loop

/-- A year with a column that is missing and one with a refund. -/
def unevenYear : ScheduleAiInput Dec where
  base := 4000
  baseResult := none
  periodActuals := [some 100, none, some (-50), some 0]
  requiredAnnualPayment := 4000
  installmentPcts := [1/4, 1/4, 1/4, 1/4]
  calcFederal := fun tax => ⟨0, tax, []⟩

def fourPeriods : SchAiPeriods :=
  ⟨"individual (Form 2210 Schedule AI)", ["03-31", "05-31", "08-31", "12-31"],
    [4, 24/10, 15/10, 1], [225/1000, 45/100, 675/1000, 9/10], none⟩

def noSeTax : SeParameters := ⟨0, 0, 0, 0⟩

theorem computeScheduleAi_uneven :
    ∃ result, computeScheduleAi (fun tax factor _ => tax * factor) (fun tax _ => tax) noSeTax
        fourPeriods unevenYear = .ok result ∧
      result.periods.map (fun c => (c.available, c.exact.line22, c.exact.line27)) =
        [(true, 90, 90), (false, 0, 1910), (true, -50.625, 0), (true, 3600, 1600)] ∧
      (∀ i c, result.periods[i]? = some c → ColumnOf (fun tax factor _ => tax * factor)
        (fun tax _ => tax) noSeTax fourPeriods unevenYear i c) ∧
      ∀ before c after, result.periods = before ++ c :: after → Recaptures before c := by
  have hrun : (computeScheduleAi (fun tax factor _ => tax * factor) (fun tax _ => tax) noSeTax
      fourPeriods unevenYear).map
        (fun r => r.periods.map fun c => (c.available, c.exact.line22, c.exact.line27)) =
      .ok [(true, 90, 90), (false, 0, 1910), (true, -50.625, 0), (true, 3600, 1600)] := by
    decide +kernel
  cases h : computeScheduleAi (fun tax factor _ => tax * factor) (fun tax _ => tax) noSeTax
      fourPeriods unevenYear with
  | error e =>
    rw [h] at hrun
    cases hrun
  | ok result =>
    rw [h] at hrun
    exact ⟨result, rfl, Except.ok.inj hrun,
      (computeScheduleAi_recaptures (by decide +kernel) (by decide +kernel) h).2⟩

end MyBooks
