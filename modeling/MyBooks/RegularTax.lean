import MyBooks.TaxDecimals

/-!
# Regular tax

Ordinary brackets, and the Schedule D Tax Worksheet for qualified dividends and long-term gains. The
lines of the worksheet keep its line numbers. Trace rows and warnings are left out.
-/

namespace MyBooks

section Brackets

structure BracketRow where
  /-- The upper bound of the bracket, or none. -/
  upper : Option Dec
  rate : Dec
  deriving DecidableEq, Repr

/-- The loop of `bracketTax`, with the tax so far. -/
def bracketTaxFrom (income : Dec) : Dec → Dec → List BracketRow → Dec
  | _, tax, [] => tax
  | lower, tax, b :: brackets =>
    let upper := b.upper.elim income fun u => min u income
    if income ≤ lower then tax
    else
      match b.upper with
      | none => tax + (upper - lower) * b.rate
      | some u =>
        if income ≤ u then tax + (upper - lower) * b.rate
        else bracketTaxFrom income u (tax + (upper - lower) * b.rate) brackets

/-- Ordinary bracket tax. The upper bound belongs to its bracket. -/
def bracketTax (income : Dec) (brackets : List BracketRow) : Dec :=
  if 0 < income then bracketTaxFrom income 0 0 brackets else 0

/-- Rate of the bracket that the last dollar falls in. -/
def marginalBracketRate (income : Dec) (brackets : List BracketRow) : Option Dec :=
  ((brackets.find? fun b => b.upper.all fun u => income ≤ u).orElse
    fun _ => brackets.getLast?).map (·.rate)

/-- Bounds that ascend from `lower` on. -/
def Ascends : Dec → List BracketRow → Prop
  | _, [] => True
  | lower, b :: brackets => ∀ u ∈ b.upper, lower ≤ u ∧ Ascends u brackets

variable {brackets : List BracketRow} {income income' lower tax : Dec}

theorem bracketTaxFrom_none (h : lower < income) (r : Dec) :
    bracketTaxFrom income lower tax (⟨none, r⟩ :: brackets) = tax + (income - lower) * r := by
  rw [bracketTaxFrom, if_neg (not_le.mpr h)]
  rfl

theorem bracketTaxFrom_some (h : lower < income) (u r : Dec) :
    bracketTaxFrom income lower tax (⟨some u, r⟩ :: brackets) =
      if income ≤ u then tax + (income - lower) * r
      else bracketTaxFrom income u (tax + (u - lower) * r) brackets := by
  rw [bracketTaxFrom, if_neg (not_le.mpr h)]
  simp only [Option.elim_some]
  split_ifs with hle
  · rw [min_eq_right hle]
  · rw [min_eq_left (not_le.mp hle).le]

/-- A bracket adds no tax below zero. -/
theorem le_bracketTaxFrom : ∀ (brackets : List BracketRow) (lower tax : Dec),
    Ascends lower brackets → (∀ b ∈ brackets, 0 ≤ b.rate) → lower < income →
    tax ≤ bracketTaxFrom income lower tax brackets
  | [], _, _, _, _, _ => le_rfl
  | ⟨none, r⟩ :: brackets, lower, tax, _, hrates, hlo => by
    rw [bracketTaxFrom_none hlo]
    have hrow := mul_nonneg (sub_nonneg.mpr hlo.le) (hrates _ List.mem_cons_self)
    linarith
  | ⟨some u, r⟩ :: brackets, lower, tax, hasc, hrates, hlo => by
    obtain ⟨hu, hasc⟩ := hasc u rfl
    obtain ⟨hr, hrates⟩ := List.forall_mem_cons.mp hrates
    rw [bracketTaxFrom_some hlo]
    split_ifs with hiu
    · have hrow := mul_nonneg (sub_nonneg.mpr hlo.le) hr
      linarith
    · have hrow := mul_nonneg (sub_nonneg.mpr hu) hr
      have ih := le_bracketTaxFrom brackets u (tax + (u - lower) * r) hasc hrates (not_le.mp hiu)
      linarith

theorem bracketTaxFrom_mono (hle : income ≤ income') : ∀ (brackets : List BracketRow)
    (lower tax : Dec), Ascends lower brackets → (∀ b ∈ brackets, 0 ≤ b.rate) → lower < income →
    bracketTaxFrom income lower tax brackets ≤ bracketTaxFrom income' lower tax brackets
  | [], _, _, _, _, _ => le_rfl
  | ⟨none, r⟩ :: brackets, lower, tax, _, hrates, hlo => by
    rw [bracketTaxFrom_none hlo, bracketTaxFrom_none (hlo.trans_le hle)]
    have hmore := mul_le_mul_of_nonneg_right (sub_le_sub_right hle lower)
      (hrates _ List.mem_cons_self)
    linarith
  | ⟨some u, r⟩ :: brackets, lower, tax, hasc, hrates, hlo => by
    obtain ⟨hu, hasc⟩ := hasc u rfl
    obtain ⟨hr, hrates⟩ := List.forall_mem_cons.mp hrates
    rw [bracketTaxFrom_some hlo, bracketTaxFrom_some (hlo.trans_le hle)]
    split_ifs with hiu hiu' hiu'
    · have hmore := mul_le_mul_of_nonneg_right (sub_le_sub_right hle lower) hr
      linarith
    · -- the row is filled, and the rest of the income goes on
      have hmore := mul_le_mul_of_nonneg_right (sub_le_sub_right hiu lower) hr
      have hrest := le_bracketTaxFrom brackets u (tax + (u - lower) * r) hasc hrates
        (not_le.mp hiu')
      linarith
    · exact absurd (hle.trans hiu') hiu
    · exact bracketTaxFrom_mono hle brackets u _ hasc hrates (not_le.mp hiu)

/-- More income is taxed no less. -/
theorem bracketTax_mono (hasc : Ascends 0 brackets) (hrates : ∀ b ∈ brackets, 0 ≤ b.rate)
    (hle : income ≤ income') : bracketTax income brackets ≤ bracketTax income' brackets := by
  unfold bracketTax
  split_ifs with h h'
  · exact bracketTaxFrom_mono hle brackets 0 0 hasc hrates h
  · exact absurd (h.trans_le hle) h'
  · exact le_bracketTaxFrom brackets 0 0 hasc hrates (by assumption)
  · exact le_rfl

end Brackets

section Worksheet

/-- What the Schedule D Tax Worksheet starts from. -/
structure ScheduleD where
  ti : Dec
  qd : Dec
  netLtcg : Dec
  unrecap : Dec
  coll : Dec
  zeroBreak : Dec
  fifteenBreak : Dec
  deriving DecidableEq, Repr

namespace ScheduleD

variable (s : ScheduleD)

/-- Net long-term gain, limited by the net gain. -/
def line9 : Dec := dFloorZero s.netLtcg

/-- Qualified dividends and the net long-term gain. -/
def line10 : Dec := dFloorZero s.qd + s.line9

def line11 : Dec := dFloorZero s.unrecap + dFloorZero s.coll

/-- Gains taxed at 25% or 28%. -/
def line12 : Dec := min s.line9 s.line11

/-- The adjusted net capital gain, taxed at 0, 15 or 20%. -/
def line13 : Dec := s.line10 - s.line12

def line14 : Dec := dFloorZero (s.ti - s.line13)

def line16 : Dec := min s.ti s.zeroBreak

def line17 : Dec := min s.line14 s.line16

/-- Income taxed only at the ordinary rates. -/
def line18 : Dec := dFloorZero (s.ti - s.line10)

def line19 : Dec := max s.line17 s.line18

/-- Taxed at 0%. -/
def line20 : Dec := s.line16 - s.line17

def line21 : Dec := min s.ti s.line13

def line23 : Dec := s.line21 - s.line20

def line25 : Dec := min s.ti s.fifteenBreak

def line26 : Dec := s.line19 + s.line20

def line27 : Dec := dFloorZero (s.line25 - s.line26)

/-- Taxed at 15%. -/
def line28 : Dec := min s.line23 s.line27

def line30 : Dec := s.line20 + s.line28

/-- Taxed at 20%. -/
def line31 : Dec := dFloorZero (s.line21 - s.line30)

def line33 : Dec := min s.line9 (dFloorZero s.unrecap)

def line34 : Dec := s.line10 + s.line19

def line36 : Dec := dFloorZero (s.line34 - s.ti)

/-- Taxed at 25%. -/
def line37 : Dec := dFloorZero (s.line33 - s.line36)

def line39 : Dec := s.line19 + s.line20 + s.line28 + s.line31 + s.line37

/-- Taxed at 28%. -/
def line40 : Dec := if 0 < s.coll then dFloorZero (s.ti - s.line39) else 0

end ScheduleD

structure WorksheetExact where
  qualifiedDividends : Dec
  netLongTermGain : Dec
  preferentialIncome : Dec
  unrecaptured1250 : Dec
  collectibles : Dec
  taxedAtZero : Dec
  taxedAtFifteen : Dec
  taxedAtTwenty : Dec
  taxedAtTwentyFive : Dec
  taxedAtTwentyEight : Dec
  ordinaryPortion : Dec
  ordinaryTax : Dec
  preferentialTax : Dec
  worksheetTax : Dec
  allOrdinaryTax : Dec
  deriving DecidableEq, Repr

/-- The parameters that the regular tax reads. -/
structure RegularTaxParameters where
  brackets : List BracketRow
  breakpoints : List Dec
  rates : List Dec
  rate25 : Dec
  rate28 : Dec
  deriving DecidableEq, Repr

/-- The Schedule D Tax Worksheet. It fails where a breakpoint or a rate is missing. -/
def capitalGainWorksheet (ti qd netLtcg unrecap coll : Dec) (p : RegularTaxParameters) :
    Option WorksheetExact := do
  let zeroBreak ← p.breakpoints[0]?
  let fifteenBreak ← p.breakpoints[1]?
  let rateZero ← p.rates[0]?
  let rateFifteen ← p.rates[1]?
  let rateTwenty ← p.rates.getLast?
  let s : ScheduleD := { ti, qd, netLtcg, unrecap, coll, zeroBreak, fifteenBreak }
  let ordinaryTax := bracketTax s.line19 p.brackets
  let preferentialTax := s.line20 * rateZero + s.line28 * rateFifteen + s.line31 * rateTwenty +
    s.line37 * p.rate25 + s.line40 * p.rate28
  return {
    qualifiedDividends := qd, netLongTermGain := s.line9, preferentialIncome := s.line10
    unrecaptured1250 := unrecap, collectibles := coll, taxedAtZero := s.line20
    taxedAtFifteen := s.line28, taxedAtTwenty := s.line31, taxedAtTwentyFive := s.line37
    taxedAtTwentyEight := s.line40, ordinaryPortion := s.line19, ordinaryTax, preferentialTax
    worksheetTax := ordinaryTax + preferentialTax, allOrdinaryTax := bracketTax ti p.brackets }

end Worksheet

section RegularTax

inductive RateMode where
  | brackets | effective
  deriving DecidableEq, Repr

structure RegularTaxInput where
  taxableIncome : Dec
  qualifiedDividends : Dec
  netLongTermGain : Dec
  unrecaptured1250 : Dec
  collectibles : Dec
  rateMode : RateMode
  effectiveRateOverride : Option Dec
  deriving DecidableEq, Repr

structure RegularTaxExact where
  method : RateMode
  taxableIncome : Dec
  tax : Dec
  marginalOrdinaryRate : Dec
  marginalCapitalGainRate : Dec
  effectiveRate : Dec
  worksheet : Option WorksheetExact
  deriving DecidableEq, Repr

/-- The regular tax with an override of the rate. -/
def effectiveRegularTax (input : RegularTaxInput) (rate : Dec) : RegularTaxExact :=
  let positiveTi := dFloorZero input.taxableIncome
  let tax := positiveTi * rate
  { method := .effective, taxableIncome := input.taxableIncome, tax, marginalOrdinaryRate := rate
    marginalCapitalGainRate := 0
    effectiveRate := if 0 < positiveTi then dRoundRate (dDiv tax positiveTi) else 0
    worksheet := none }

/-- The regular tax by the ordinary brackets alone. -/
def ordinaryRegularTax (input : RegularTaxInput) (p : RegularTaxParameters) :
    Option RegularTaxExact := do
  let positiveTi := dFloorZero input.taxableIncome
  let tax := bracketTax positiveTi p.brackets
  let marginal ← marginalBracketRate positiveTi p.brackets
  return {
    method := .brackets, taxableIncome := input.taxableIncome, tax, marginalOrdinaryRate := marginal
    marginalCapitalGainRate := 0
    effectiveRate := if 0 < positiveTi then dRoundRate (dDiv tax positiveTi) else 0
    worksheet := none }

/-- The highest of the rates that gains come to. -/
def marginalCapitalGainRate (w : WorksheetExact) (rates : List Dec) : Option Dec :=
  if 0 < w.taxedAtTwenty then rates.getLast?
  else if 0 < w.taxedAtFifteen then rates[1]? else rates[0]?

/-- The regular tax by the worksheet, never more than by the brackets alone. -/
def worksheetRegularTax (input : RegularTaxInput) (p : RegularTaxParameters) :
    Option RegularTaxExact := do
  let positiveTi := dFloorZero input.taxableIncome
  let w ← capitalGainWorksheet positiveTi (dFloorZero input.qualifiedDividends)
    (dFloorZero input.netLongTermGain) (dFloorZero input.unrecaptured1250)
    (dFloorZero input.collectibles) p
  let tax := min w.worksheetTax w.allOrdinaryTax
  let marginalOrdinaryRate ← marginalBracketRate w.ordinaryPortion p.brackets
  let marginalGainRate ← marginalCapitalGainRate w p.rates
  return {
    method := .brackets, taxableIncome := input.taxableIncome, tax, marginalOrdinaryRate
    marginalCapitalGainRate := marginalGainRate
    effectiveRate := dRoundRate (dDiv tax positiveTi)
    worksheet := some w }

def computeRegularTax (input : RegularTaxInput) (p : RegularTaxParameters) :
    Option RegularTaxExact :=
  match input.rateMode, input.effectiveRateOverride with
  | .effective, some rate => some (effectiveRegularTax input rate)
  | _, _ =>
    if 0 < dFloorZero input.taxableIncome ∧
        (0 < dFloorZero input.qualifiedDividends ∨ 0 < dFloorZero input.netLongTermGain) then
      worksheetRegularTax input p
    else ordinaryRegularTax input p

end RegularTax

end MyBooks
