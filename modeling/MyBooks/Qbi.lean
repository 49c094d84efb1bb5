import MyBooks.EntityIncome
import MyBooks.ProRata

/-!
# The qualified business income deduction

`computeQbi` makes one component a share: its qualified items less the deductions attributable to
the business, in the phase-in range a part of it where the business is a specified service one.
Losses are netted against gains, and above the threshold a component is limited by W-2 wages and
the basis of qualified property. Trace rows and warnings are left out, and the parameters are read
for the filing status beforehand.
-/

namespace MyBooks

structure QbiParams where
  rate : Dec
  threshold : Dec
  phaseInRange : Dec
  w2WagePct : Dec
  altW2WagePct : Dec
  ubiaPct : Dec
  taxableIncomeLimitPct : Dec
  minDeductionAmount : Dec
  minDeductionActiveQbiThreshold : Dec

/-- An entity with what the deduction reads of its tax year. -/
structure QbiEntity extends AllocatedEntity where
  companyName : String
  isSstb : Bool
  rentalQbiTradeOrBusiness : Bool
  w2WagesEffective : Option Dec
  includeSehiInW2Wages : Bool
  ubia : Option Dec

structure QbiAdjustment extends EngineAdjustment where
  affectsQbi : Bool

structure QbiPersonDeductions where
  halfSeTax : Dec
  sehi : Dec
  retirement : Dec

structure QbiContext where
  taxableIncomeBeforeQbi : Dec
  netCapitalGainWithQd : Dec
  income : AggregatedIncome
  entities : List QbiEntity
  adjustments : List QbiAdjustment
  personDeductions : Entries Id QbiPersonDeductions
  section1231Net : Dec

structure QbiComponent where
  linkId : Id
  personId : Id
  companyName : String
  entityType : EntityTaxType
  activityType : ActivityType
  eligible : Bool
  reason : Option String
  sstb : Bool
  qualifiedItems : Dec
  attributableDeductions : Dec
  qbi : Dec
  qbiAfterNetting : Dec
  w2Wages : Option Dec
  ubia : Option Dec
  tentative : Dec
  wageUbiaLimit : Option Dec
  limitApplied : Bool
  component : Dec
  deriving DecidableEq, Repr

inductive QbiMethod where
  | manual | computed | none
  deriving DecidableEq, Repr

structure QbiResult where
  method : QbiMethod
  deduction : Dec
  computedDeduction : Dec
  taxableIncomeBeforeQbi : Dec
  threshold : Dec
  phaseInRange : Dec
  phaseInFraction : Dec
  components : List QbiComponent
  netLossCarryforward : Dec
  reitPtpIncome : Dec
  reitPtpComponent : Dec
  combined : Dec
  overallLimit : Dec
  activeQbi : Dec
  minimumApplied : Bool
  deriving DecidableEq, Repr

/-- Signed effect of a link adjustment on the share's ordinary character. -/
def ordinaryEffect (a : EngineAdjustment) : Dec :=
  match a.kind with
  | .deduction => -a.amount
  | .addback => a.amount * if a.pct = none then 1 else percentToFraction a.pct
  | .income => if adjustmentCharacter a = .ordinary then a.amount else 0

/-- Pro rata split of a pool by weights, the last recipient taking the remainder. -/
def allocate (pool : Dec) (weights : List (Id × Dec)) : Entries Id Dec :=
  let total := (weights.map Prod.snd).sum
  if ¬0 < pool ∨ ¬0 < total then []
  else
    (splitLast (fun w => dDiv (pool * w) total) pool weights).foldl
      (fun out part => out.set part.1 part.2) []

section Eligibility

variable (s : AllocatedShare) (e : Option QbiEntity)

/-- Why a share is no qualified business, none where it is one. -/
def exclusion : Option String :=
  if s.entityType = .cCorp then some "C corporation income is not qualified business income"
  else if s.qbiEligible = some false then some "excluded by the link's QBI setting"
  else if s.qbiEligible = some true then none
  else if s.activityType = .investment then
    some "investment activity (portfolio income is not QBI)"
  else if s.activityType = .rental ∧ ¬(e.map (·.rentalQbiTradeOrBusiness)).getD false then
    some
      "rental not treated as a §162 trade or business (rental_qbi_trade_or_business off)"
  else none

def sstbExclusion : String := "specified service trade or business above the phase-in range"

end Eligibility

/-- The health insurance added to wages, one amount a person. -/
def sehiAddOn (shares : List AllocatedShare) : Dec :=
  (shares.foldl (fun (acc : List Id × Dec) s =>
    if s.personId ∈ acc.1 then acc else (s.personId :: acc.1, acc.2 + s.sehiAsW2Wages)) ([], 0)).2

/-- The full-year W-2 wages of an entity. Unknown wages stay so unless the switch adds to them. -/
def entityW2Wages (e : QbiEntity) : Option Dec :=
  if ¬e.includeSehiInW2Wages then e.w2WagesEffective
  else
    let addOn := sehiAddOn e.shares
    if ¬0 < addOn then e.w2WagesEffective else some (e.w2WagesEffective.getD 0 + addOn)

namespace QbiContext

variable (q : QbiContext)

def persons : List PersonIncome := q.income.byPerson.map Prod.snd

def entityByLink : Entries Id QbiEntity :=
  q.entities.foldl (fun m e => e.shares.foldl (fun m s => m.set s.linkId e) m) []

def deductionsOf (p : PersonIncome) : QbiPersonDeductions :=
  (q.personDeductions.get? p.personId).getD ⟨0, 0, 0⟩

end QbiContext

section Weights

variable (p : PersonIncome)

def positive (weights : List (Id × Dec)) : List (Id × Dec) := weights.filter fun e => 0 < e.2

def seWeights : List (Id × Dec) := positive (p.shares.map fun s => (s.linkId, s.seIncome))
def ownWeights : List (Id × Dec) := positive (p.shares.map fun s => (s.linkId, s.ownerSehi))
def wageWeights : List (Id × Dec) := positive (p.shares.map fun s => (s.linkId, s.officerWages))

/-- The health premiums go to the businesses that paid them, else by self-employment income, else
by officer wages. -/
def sehiWeights : List (Id × Dec) :=
  if 0 < (ownWeights p).length then ownWeights p
  else if 0 < (seWeights p).length then seWeights p
  else wageWeights p

end Weights

namespace QbiContext

variable (q : QbiContext) (p : PersonIncome)

def sePool : Dec := (q.deductionsOf p).halfSeTax + (q.deductionsOf p).retirement

/-- What of a person's deductions falls to a link. -/
def attributed (linkId : Id) : Dec :=
  ((allocate (q.sePool p) (seWeights p)).get? linkId).getD 0 +
    ((allocate (q.deductionsOf p).sehi (sehiWeights p)).get? linkId).getD 0

/-- Qualified items of a share. Adjustments that do not affect the income are backed out. -/
def qualifiedItems (s : AllocatedShare) : Dec :=
  let items := s.share .ordinary + s.share .rental
  let items := if 0 < q.section1231Net then items else items + s.share .section1231
  q.adjustments.foldl (fun items a =>
    if a.linkId = some s.linkId ∧ ¬a.affectsQbi then items - ordinaryEffect a.toEngineAdjustment
    else items) items

end QbiContext

/-- How far the taxable income is into the phase-in range. -/
def QbiParams.phaseIn (params : QbiParams) (ti : Dec) : Dec :=
  let excess := ti - params.threshold
  if 0 < params.phaseInRange then min (max (dDiv excess params.phaseInRange) 0) 1
  else if 0 < excess then 1 else 0

section Component

variable (params : QbiParams) (q : QbiContext)

def componentOf (p : PersonIncome) (s : AllocatedShare) : QbiComponent :=
  let e := q.entityByLink.get? s.linkId
  let reason := exclusion s e
  let sstb := (e.map (·.isSstb)).getD false
  let c : QbiComponent :=
    { linkId := s.linkId, personId := s.personId
      companyName := (e.map (·.companyName)).getD s.linkId
      entityType := s.entityType, activityType := s.activityType
      eligible := reason.isNone, reason, sstb, qualifiedItems := 0, attributableDeductions := 0
      qbi := 0, qbiAfterNetting := 0, w2Wages := none, ubia := none, tentative := 0
      wageUbiaLimit := none, limitApplied := false, component := 0 }
  if reason.isSome then c
  else
    let items := q.qualifiedItems s
    let attributable := q.attributed p s.linkId
    let c :=
      { c with
        qualifiedItems := items, attributableDeductions := attributable
        qbi := items - attributable
        w2Wages := (e.bind entityW2Wages).map (· * s.profitFraction)
        ubia := (e.bind (·.ubia)).map (· * s.profitFraction) }
    let phaseIn := params.phaseIn q.taxableIncomeBeforeQbi
    if sstb ∧ 0 < q.taxableIncomeBeforeQbi - params.threshold then
      if 1 ≤ phaseIn then
        { c with
          eligible := false, reason := some sstbExclusion, qbi := 0
          w2Wages := c.w2Wages.map fun _ => 0, ubia := c.ubia.map fun _ => 0 }
      else
        let applicable := 1 - phaseIn
        { c with
          qbi := c.qbi * applicable, w2Wages := c.w2Wages.map (· * applicable)
          ubia := c.ubia.map (· * applicable) }
    else c

def qbiComponents : List QbiComponent :=
  q.persons.flatMap fun p => p.shares.map (componentOf params q p)

end Component

section Netting

def gains (live : List QbiComponent) : List QbiComponent := live.filter fun c => 0 < c.qbi
def losses (live : List QbiComponent) : List QbiComponent := live.filter fun c => c.qbi < 0
def totalGain (live : List QbiComponent) : Dec := ((gains live).map (·.qbi)).sum
def totalLoss (live : List QbiComponent) : Dec := ((losses live).map fun c => |c.qbi|).sum
def absorbed (live : List QbiComponent) : Dec := min (totalLoss live) (totalGain live)

def absorbedBy (live : List QbiComponent) : Entries Id Dec :=
  allocate (absorbed live) ((gains live).map fun c => (c.linkId, c.qbi))

/-- A component after the losses are netted. Those of a loss are disregarded. -/
def QbiComponent.net (c : QbiComponent) (live : List QbiComponent) : QbiComponent :=
  if 0 < c.qbi then
    { c with qbiAfterNetting := c.qbi - ((absorbedBy live).get? c.linkId).getD 0 }
  else if c.qbi < 0 then
    { c with
      qbiAfterNetting := 0, w2Wages := c.w2Wages.map fun _ => 0, ubia := c.ubia.map fun _ => 0 }
  else c

end Netting

section Limit

variable (params : QbiParams) (ti : Dec)

/-- What W-2 wages and the basis of qualified property allow. -/
def QbiParams.wageUbiaLimit (w2Wages ubia : Option Dec) : Dec :=
  let w2 := w2Wages.getD 0
  let w2Limb := params.w2WagePct * w2
  match ubia with
  | none => w2Limb
  | some ubia => max w2Limb (params.altW2WagePct * w2 + params.ubiaPct * ubia)

/-- A component under the limit. -/
def QbiComponent.limited (c : QbiComponent) : QbiComponent :=
  let tentative := params.rate * c.qbiAfterNetting
  if 0 < ti - params.threshold ∧ 0 < c.qbiAfterNetting then
    let limit := params.wageUbiaLimit c.w2Wages c.ubia
    let phaseIn := params.phaseIn ti
    { c with
      tentative, wageUbiaLimit := some limit, limitApplied := limit < tentative
      component :=
        if limit < tentative then
          if 1 ≤ phaseIn then limit else tentative - (tentative - limit) * phaseIn
        else tentative }
  else { c with tentative, component := tentative }

/-- Netting and limits are for eligible components. -/
def QbiComponent.finish (live : List QbiComponent) (c : QbiComponent) : QbiComponent :=
  if c.eligible then (c.net live).limited params ti else c

end Limit

def computeQbi (params : QbiParams) (manualDeduction : Option Dec) (q : QbiContext) : QbiResult :=
  let ti := q.taxableIncomeBeforeQbi
  let made := qbiComponents params q
  let live := made.filter (·.eligible)
  let components := made.map (QbiComponent.finish params ti live)
  let componentsTotal := ((components.filter (·.eligible)).map (·.component)).sum
  let activeQbi := ((live.filter fun c => c.activityType = .active).map (·.qbi)).sum
  let reitPtpIncome := (q.persons.map fun p => p.reitDividends + p.ptpIncome).sum
  let reitPtpComponent := params.rate * dFloorZero reitPtpIncome
  let combined := componentsTotal + reitPtpComponent
  let overallLimit := params.taxableIncomeLimitPct * dFloorZero (ti - q.netCapitalGainWithQd)
  let computed := dFloorZero (min combined overallLimit)
  let floor := min params.minDeductionAmount (dFloorZero ti)
  let minimumApplied : Bool :=
    0 < params.minDeductionAmount ∧ params.minDeductionActiveQbiThreshold ≤ activeQbi ∧
      computed < params.minDeductionAmount ∧ computed < floor
  let computed := if minimumApplied then floor else computed
  { method :=
      if manualDeduction.isSome then .manual
      else if live ≠ [] ∨ 0 < reitPtpComponent then .computed else .none
    deduction := (manualDeduction.map dFloorZero).getD computed
    computedDeduction := computed
    taxableIncomeBeforeQbi := ti
    threshold := params.threshold
    phaseInRange := params.phaseInRange
    phaseInFraction := params.phaseIn ti
    components
    netLossCarryforward := dFloorZero (totalLoss live - totalGain live)
    reitPtpIncome, reitPtpComponent, combined, overallLimit, activeQbi, minimumApplied }

end MyBooks
