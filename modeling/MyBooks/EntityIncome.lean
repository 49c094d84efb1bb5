import MyBooks.TaxDecimals
import MyBooks.Entries
import MyBooks.Result

/-!
# Income of entities and persons

`allocateEntity` projects an entity's tax-basis income to the full year and shares it out by link,
and `aggregatePersons` collects shares and adjustments by person. Owner-level amounts (guaranteed
payments, officer wages, health premiums, retirement contributions) are pooled by person and go to
the shares of the person's links, or to an empty share. Trace rows, warnings and what a trend says
beside its projection are left out.
-/

namespace MyBooks

inductive IncomeCharacter where
  | ordinary | capitalGainSt | capitalGainLt | section1231 | interest | dividendsOrdinary
  | dividendsQualified | rental
  deriving DecidableEq, Repr

inductive EntityTaxType where
  | schC | schF | sCorp | partnership | cCorp
  deriving DecidableEq, Repr

inductive ActivityType where
  | active | passive | rental | investment
  deriving DecidableEq, Repr

inductive PartnerSeStatus where
  | general | limited | llcMemberManager
  deriving DecidableEq, Repr

inductive PersonRole where
  | primary | spouse
  deriving DecidableEq, Repr

inductive AdjustmentKind where
  | income | deduction | addback
  deriving DecidableEq, Repr

abbrev CharacterAmounts := IncomeCharacter → Dec

def incomeCharacters : List IncomeCharacter :=
  [.ordinary, .capitalGainSt, .capitalGainLt, .section1231, .interest, .dividendsOrdinary,
    .dividendsQualified, .rental]

def sumCharacters (c : CharacterAmounts) : Dec := (incomeCharacters.map c).sum

/-- Adds to one character. -/
def CharacterAmounts.plus (c : CharacterAmounts) (k : IncomeCharacter) (v : Dec) :
    CharacterAmounts :=
  Function.update c k (c k + v)

structure EnginePerson where
  personId : Id
  role : PersonRole
  w2Wages : Dec
  w2SocialSecurityWages : Option Dec
  deriving DecidableEq, Repr

structure EngineLink where
  linkId : Id
  personId : Id
  profitPct : Option Dec
  lossPct : Option Dec
  partnerSeStatus : Option PartnerSeStatus
  isOfficer : Bool
  activityType : ActivityType
  activeParticipation : Bool
  qbiEligible : Option Bool
  allowedLossOverride : Option Dec
  deriving DecidableEq, Repr

structure EngineOwnerItem where
  personId : Option Id
  sehi : Dec
  retirement : Dec
  sehiAsW2Wages : Dec
  deriving DecidableEq, Repr

structure EnginePersonAmount where
  personId : Option Id
  amount : Dec
  deriving DecidableEq, Repr

inductive PriorYearTrendMethod where
  | priorYearScaled | priorYearDollar
  deriving DecidableEq, Repr

structure PriorYearFigures where
  sameMonthsOrdinary : Dec
  remainingOrdinary : Dec
  monthsWithActivity : ℤ
  deriving DecidableEq, Repr

structure EnginePriorYearTrend where
  method : PriorYearTrendMethod
  priorYear : Option PriorYearFigures
  unavailableReason : Option String
  deriving DecidableEq, Repr

structure EngineEntity where
  tenantId : Id
  companyId : Id
  entityType : EntityTaxType
  monthsElapsed : ℤ
  monthsRemaining : ℤ
  ytd : CharacterAmounts
  recurringYtd : CharacterAmounts
  ownerItems : List EngineOwnerItem
  guaranteedPayments : List EnginePersonAmount
  officerWages : List EnginePersonAmount
  taxDepreciationBookYtd : Dec
  links : List EngineLink
  priorYearTrend : Option EnginePriorYearTrend

structure EngineAdjustment where
  typeCode : Option String
  kind : AdjustmentKind
  amount : Dec
  pct : Option Dec
  personId : Option Id
  linkId : Option Id
  affectsSe : Bool
  isCapitalGainLt : Bool
  isCapitalGainSt : Bool
  isQualifiedDividend : Bool
  isReitDividend : Bool
  isPtp : Bool
  is1231 : Bool
  isAboveTheLine : Bool
  deriving DecidableEq, Repr

section Persons

/-- A missing or blank id is none. -/
def truthy (id : Option Id) : Option Id := id.filter (· ≠ "")

def noPersons : String := "TE_NO_PERSONS: the taxpayer has no persons"

/-- The id where it is a person's, else the primary person's. -/
def resolvePerson (persons : List EnginePerson) (personId : Option Id) : Except String Id :=
  match (truthy personId).filter fun id => persons.any fun p => p.personId = id with
  | some id => .ok id
  | none =>
    match (persons.find? fun p => p.role = .primary) <|> persons.head? with
    | some p => .ok p.personId
    | none => .error noPersons

end Persons

section Projection

/-- Year to date and the recurring part's run rate over the months left. -/
def projectAmount (ytd recurringYtd : Dec) (monthsElapsed monthsRemaining : ℤ) : Dec :=
  if monthsElapsed ≤ 0 ∨ monthsRemaining ≤ 0 then ytd
  else ytd + dDiv recurringYtd monthsElapsed * monthsRemaining

def projectCharacters (ytd recurringYtd : CharacterAmounts) (monthsElapsed monthsRemaining : ℤ) :
    CharacterAmounts :=
  fun k => projectAmount (ytd k) (recurringYtd k) monthsElapsed monthsRemaining

/-- Owner-level amounts recur in whole. -/
def projectWhole (ytd : Dec) (e : EngineEntity) : Dec :=
  projectAmount ytd ytd e.monthsElapsed e.monthsRemaining

/-- Ordinary income scaled by the prior year, or what keeps it from being so. -/
def scaledOrdinary (e : EngineEntity) (py : PriorYearFigures) : Except String Dec :=
  let full := py.sameMonthsOrdinary + py.remainingOrdinary
  let recurring := e.recurringYtd .ordinary
  if ¬0 < py.sameMonthsOrdinary then .error "py_same_months_not_positive"
  else if |py.sameMonthsOrdinary| < 1 / 10 * |full| then .error "py_same_months_small"
  else if ¬0 < recurring then .error "cy_recurring_not_positive"
  else
    let raw := dDiv recurring py.sameMonthsOrdinary
    let factor := if raw < 1 / 4 then 1 / 4 else if 4 < raw then 4 else raw
    .ok (e.ytd .ordinary + py.remainingOrdinary * factor)

/-- Ordinary income under the prior-year method, or the reason for the run rate. -/
def trendOrdinary (e : EngineEntity) (t : EnginePriorYearTrend) : Except String Dec :=
  if e.monthsRemaining ≤ 0 then .ok (e.ytd .ordinary)
  else
    match t.unavailableReason, t.priorYear with
    | some reason, _ => .error reason
    | none, none => .error "py_unreadable"
    | none, some py =>
      if py.monthsWithActivity ≤ 0 then .error "py_books_missing"
      else if py.monthsWithActivity < 12 then .error "py_books_incomplete"
      else
        match t.method with
        | .priorYearDollar => .ok (e.ytd .ordinary + py.remainingOrdinary)
        | .priorYearScaled => scaledOrdinary e py

/-- `projectedOrdinary` of the trend's outcome. -/
def evaluatePriorYearTrend (e : EngineEntity) (t : EnginePriorYearTrend) : Dec :=
  match trendOrdinary e t with
  | .ok ordinary => ordinary
  | .error _ => projectAmount (e.ytd .ordinary) (e.recurringYtd .ordinary) e.monthsElapsed
      e.monthsRemaining

/-- The full-year amounts by character. -/
def EngineEntity.projected (e : EngineEntity) : CharacterAmounts :=
  let runRated := projectCharacters e.ytd e.recurringYtd e.monthsElapsed e.monthsRemaining
  match e.priorYearTrend with
  | some t => Function.update runRated .ordinary (evaluatePriorYearTrend e t)
  | none => runRated

end Projection

section Adjustments

def adjustmentCharacter (a : EngineAdjustment) : IncomeCharacter :=
  if a.isCapitalGainLt then .capitalGainLt
  else if a.isCapitalGainSt then .capitalGainSt
  else if a.is1231 then .section1231
  else if a.isQualifiedDividend then .dividendsQualified
  else if a.typeCode = some "interest_income" then .interest
  else .ordinary

/-- What an adjustment adds to income. -/
def adjustmentEffect (a : EngineAdjustment) : Dec :=
  match a.kind with
  | .deduction => -a.amount
  | .addback => a.amount * if a.pct = none then 1 else percentToFraction a.pct
  | .income => a.amount

structure AdjustedShare where
  share : CharacterAmounts
  seIncome : Dec
  bookSwapped : Bool

/-- An adjustment of a link's share. The tax depreciation stands in for the book's, once. -/
def AdjustedShare.apply (fraction bookDepreciation : Dec) (s : AdjustedShare)
    (a : EngineAdjustment) : AdjustedShare :=
  let swaps : Bool := a.typeCode = some "depreciation_tax_vs_book"
  let effect := adjustmentEffect a +
    if swaps ∧ ¬s.bookSwapped then -bookDepreciation * fraction else 0
  let character :=
    if swaps ∨ a.kind ≠ .income then IncomeCharacter.ordinary else adjustmentCharacter a
  { share := s.share.plus character effect
    seIncome := if a.affectsSe ∧ character = .ordinary then s.seIncome + effect else s.seIncome
    bookSwapped := s.bookSwapped || swaps }

def applyLinkAdjustments (share : CharacterAmounts) (seIncome fraction bookDepreciation : Dec)
    (adjustments : List EngineAdjustment) : CharacterAmounts × Dec :=
  let s := adjustments.foldl (AdjustedShare.apply fraction bookDepreciation)
    ⟨share, seIncome, false⟩
  (s.share, s.seIncome)

def seIncomeFor (entityType : EntityTaxType) (partnerSeStatus : Option PartnerSeStatus)
    (ordinaryShare guaranteedPayment : Dec) : Dec :=
  match entityType with
  | .schC | .schF => ordinaryShare
  | .partnership =>
    if partnerSeStatus = some .limited then guaranteedPayment else ordinaryShare + guaranteedPayment
  | _ => 0

end Adjustments

section Allocation

structure AllocatedShare where
  linkId : Id
  personId : Id
  entityType : EntityTaxType
  activityType : ActivityType
  partnerSeStatus : Option PartnerSeStatus
  isOfficer : Bool
  profitFraction : Dec
  lossFraction : Dec
  share : CharacterAmounts
  guaranteedPayment : Dec
  officerWages : Dec
  sehiAsW2Wages : Dec
  ownerSehi : Dec
  ownerRetirement : Dec
  seIncome : Dec
  qbiEligible : Option Bool
  activeParticipation : Bool
  allowedLossOverride : Option Dec

structure AllocatedEntity where
  entity : EngineEntity
  projected : CharacterAmounts
  projectedProfit : Dec
  shares : List AllocatedShare

def entityId (e : EngineEntity) : Id := e.tenantId ++ ":" ++ e.companyId

/-- A link's fractions of profit and of loss. -/
def linkFraction (e : EngineEntity) (l : EngineLink) : Dec × Dec :=
  let profit :=
    if l.profitPct = none then if e.links.length = 1 then 1 else 0
    else percentToFraction l.profitPct
  (profit, if l.lossPct = none then profit else percentToFraction l.lossPct)

def linkFractions (e : EngineEntity) : Entries Id (Dec × Dec) :=
  e.links.foldl (fun out l => out.set l.linkId (linkFraction e l)) []

/-- Whose an owner-level amount is: the person named, else the single link's, else the primary
person's. -/
def ownerPerson (persons : List EnginePerson) (e : EngineEntity) (personId : Option Id) :
    Except String Id :=
  match truthy personId with
  | some id => resolvePerson persons (some id)
  | none =>
    match e.links with
    | [l] => .ok l.personId
    | _ => resolvePerson persons none

/-- `sumTo` of each projected amount. -/
def poolByPerson (persons : List EnginePerson) (e : EngineEntity)
    (items : List EnginePersonAmount) : Except String (Entries Id Dec) :=
  items.foldlM (fun pool item => do
    let personId ← ownerPerson persons e item.personId
    return pool.update personId fun o => o.getD 0 + projectWhole item.amount e) []

/-- The owner-level amounts by person. -/
structure OwnerPools where
  guaranteedPayment : Entries Id Dec
  officerWages : Entries Id Dec
  sehi : Entries Id Dec
  retirement : Entries Id Dec
  sehiAsW2Wages : Entries Id Dec
  deriving DecidableEq, Repr

def ownerPools (persons : List EnginePerson) (e : EngineEntity) : Except String OwnerPools := do
  let guaranteedPayment ← poolByPerson persons e e.guaranteedPayments
  let officerWages ← poolByPerson persons e e.officerWages
  let sehi ← poolByPerson persons e (e.ownerItems.map fun o => ⟨o.personId, o.sehi⟩)
  let retirement ← poolByPerson persons e (e.ownerItems.map fun o => ⟨o.personId, o.retirement⟩)
  let sehiAsW2Wages ←
    poolByPerson persons e (e.ownerItems.map fun o => ⟨o.personId, o.sehiAsW2Wages⟩)
  return { guaranteedPayment, officerWages, sehi, retirement, sehiAsW2Wages }

/-- A link's share, with all that its person's pools hold. -/
def linkShare (persons : List EnginePerson) (e : EngineEntity) (adjustments : List EngineAdjustment)
    (pools : OwnerPools) (l : EngineLink) : Except String AllocatedShare := do
  let personId ← resolvePerson persons (some l.personId)
  let (profit, loss) := ((linkFractions e).get? l.linkId).getD (0, 0)
  let fraction := if sumCharacters e.projected < 0 then loss else profit
  let base : CharacterAmounts := fun k => e.projected k * fraction
  let gp := (pools.guaranteedPayment.get? personId).getD 0
  let (share, seIncome) := applyLinkAdjustments base
    (seIncomeFor e.entityType l.partnerSeStatus (base .ordinary) gp) fraction
    (projectWhole e.taxDepreciationBookYtd e) (adjustments.filter fun a => a.linkId = some l.linkId)
  return {
    linkId := l.linkId, personId, entityType := e.entityType, activityType := l.activityType
    partnerSeStatus := l.partnerSeStatus, isOfficer := l.isOfficer, profitFraction := profit
    lossFraction := loss, share, guaranteedPayment := gp
    officerWages := (pools.officerWages.get? personId).getD 0
    sehiAsW2Wages := (pools.sehiAsW2Wages.get? personId).getD 0
    ownerSehi := (pools.sehi.get? personId).getD 0
    ownerRetirement := (pools.retirement.get? personId).getD 0
    seIncome, qbiEligible := l.qbiEligible, activeParticipation := l.activeParticipation
    allowedLossOverride := l.allowedLossOverride }

/-- The empty share that a person without a link has their amounts attached to. -/
def emptyShare (e : EngineEntity) (pools : OwnerPools) (personId : Id) : AllocatedShare :=
  let gp := (pools.guaranteedPayment.get? personId).getD 0
  { linkId := entityId e ++ ":" ++ personId, personId, entityType := e.entityType
    activityType := .active, partnerSeStatus := none, isOfficer := false, profitFraction := 0
    lossFraction := 0, share := fun _ => 0, guaranteedPayment := gp
    officerWages := (pools.officerWages.get? personId).getD 0
    sehiAsW2Wages := (pools.sehiAsW2Wages.get? personId).getD 0
    ownerSehi := (pools.sehi.get? personId).getD 0
    ownerRetirement := (pools.retirement.get? personId).getD 0
    seIncome := seIncomeFor e.entityType none 0 gp, qbiEligible := some false
    activeParticipation := false, allowedLossOverride := none }

/-- A person that no share is of yet has their amounts attached to an empty one. -/
def routePerson (e : EngineEntity) (pools : OwnerPools) (shares : List AllocatedShare)
    (personId : Id) : List AllocatedShare :=
  if personId ∈ shares.map (·.personId) then shares else shares ++ [emptyShare e pools personId]

/-- The persons that owner-level amounts are of. -/
def OwnerPools.routed (pools : OwnerPools) : List Id :=
  pools.guaranteedPayment.keys ++ pools.officerWages.keys ++ pools.sehi.keys ++
    pools.retirement.keys

def allocateEntity (persons : List EnginePerson) (adjustments : List EngineAdjustment)
    (e : EngineEntity) : Except String AllocatedEntity := do
  let pools ← ownerPools persons e
  let shares ← e.links.mapM (linkShare persons e adjustments pools)
  return {
    entity := e, projected := e.projected, projectedProfit := sumCharacters e.projected
    shares := pools.routed.foldl (routePerson e pools) shares }

end Allocation

section Aggregation

structure PersonIncome where
  personId : Id
  wages : Dec
  socialSecurityWages : Dec
  character : CharacterAmounts
  guaranteedPayments : Dec
  seIncome : Dec
  reitDividends : Dec
  ptpIncome : Dec
  sehiPremiums : Dec
  retirementContributions : Dec
  hsaContributions : Dec
  otherAboveTheLine : Dec
  shares : List AllocatedShare

structure AggregatedIncome where
  byPerson : Entries Id PersonIncome
  otherAboveTheLine : Dec
  itemizedOther : Dec

def personIncome (p : EnginePerson) : PersonIncome where
  personId := p.personId
  wages := p.w2Wages
  socialSecurityWages := p.w2SocialSecurityWages.getD p.w2Wages
  character _ := 0
  guaranteedPayments := 0
  seIncome := 0
  reitDividends := 0
  ptpIncome := 0
  sehiPremiums := 0
  retirementContributions := 0
  hsaContributions := 0
  otherAboveTheLine := 0
  shares := []

/-- A person's income with a share added. -/
def PersonIncome.addShare (p : PersonIncome) (s : AllocatedShare) : PersonIncome :=
  { p with
    character :=
      CharacterAmounts.plus (fun k => p.character k + s.share k) .ordinary s.guaranteedPayment
    guaranteedPayments := p.guaranteedPayments + s.guaranteedPayment
    seIncome := p.seIncome + s.seIncome
    wages := p.wages + (s.officerWages + s.sehiAsW2Wages)
    socialSecurityWages := p.socialSecurityWages + s.officerWages
    sehiPremiums := p.sehiPremiums + s.ownerSehi
    retirementContributions := p.retirementContributions + s.ownerRetirement
    shares := p.shares ++ [s] }

def retirementCodes : List String := ["sep_solo_401k", "retirement_catch_up"]

/-- Where an unlinked deduction goes: to the person's pools or to the taxpayer's deductions. -/
inductive DeductionRoute where
  | health | retirement | hsa | personAboveTheLine | aboveTheLine | itemized
  deriving DecidableEq, Repr

def deductionRoute (a : EngineAdjustment) : DeductionRoute :=
  if a.typeCode = some "owner_health_insurance" then .health
  else if a.typeCode.any (· ∈ retirementCodes) then .retirement
  else if a.typeCode = some "hsa_contribution" then .hsa
  else if a.isAboveTheLine then
    if (truthy a.personId).isSome then .personAboveTheLine else .aboveTheLine
  else .itemized

/-- A person's income with an unlinked deduction. -/
def PersonIncome.deduct (p : PersonIncome) (a : EngineAdjustment) : PersonIncome :=
  match deductionRoute a with
  | .health => { p with sehiPremiums := p.sehiPremiums + a.amount }
  | .retirement => { p with retirementContributions := p.retirementContributions + a.amount }
  | .hsa => { p with hsaContributions := p.hsaContributions + a.amount }
  | .personAboveTheLine => { p with otherAboveTheLine := p.otherAboveTheLine + a.amount }
  | .aboveTheLine | .itemized => p

/-- A person's income with an unlinked adjustment that is no deduction. -/
def PersonIncome.adjust (p : PersonIncome) (a : EngineAdjustment) : PersonIncome :=
  let effect := adjustmentEffect a
  let character := if a.kind = .income then adjustmentCharacter a else .ordinary
  { p with
    character := p.character.plus character effect
    reitDividends := if a.isReitDividend then p.reitDividends + effect else p.reitDividends
    ptpIncome := if a.isPtp then p.ptpIncome + effect else p.ptpIncome
    seIncome := if a.affectsSe ∧ character = .ordinary then p.seIncome + effect else p.seIncome }

/-- A person's key among the persons, and their income. -/
def AggregatedIncome.get (persons : List EnginePerson) (income : AggregatedIncome)
    (personId : Option Id) : Except String (Id × PersonIncome) := do
  let key ← resolvePerson persons personId
  match income.byPerson.get? key with
  | some p => return (key, p)
  | none => .error noPersons

def AggregatedIncome.addShare (persons : List EnginePerson) (income : AggregatedIncome)
    (s : AllocatedShare) : Except String AggregatedIncome := do
  let (key, p) ← income.get persons (some s.personId)
  return { income with byPerson := income.byPerson.set key (p.addShare s) }

def AggregatedIncome.addUnlinked (persons : List EnginePerson) (income : AggregatedIncome)
    (a : EngineAdjustment) : Except String AggregatedIncome := do
  let (key, p) ← income.get persons a.personId
  let route := if a.kind = .deduction then some (deductionRoute a) else none
  return {
    byPerson :=
      income.byPerson.set key (if a.kind = .deduction then p.deduct a else p.adjust a)
    otherAboveTheLine := income.otherAboveTheLine +
      if route = some .aboveTheLine then a.amount else 0
    itemizedOther := income.itemizedOther + if route = some .itemized then a.amount else 0 }

def aggregatePersons (entities : List AllocatedEntity) (persons : List EnginePerson)
    (adjustments : List EngineAdjustment) : Except String AggregatedIncome := do
  let byPerson : Entries Id PersonIncome :=
    persons.foldl (fun m p => m.set p.personId (personIncome p)) []
  let income ← (entities.flatMap (·.shares)).foldlM (AggregatedIncome.addShare persons)
    ⟨byPerson, 0, 0⟩
  (adjustments.filter fun a => (truthy a.linkId).isNone).foldlM
    (AggregatedIncome.addUnlinked persons) income

end Aggregation

end MyBooks
