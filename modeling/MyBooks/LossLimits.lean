import MyBooks.EntityIncome

/-!
# Loss limitations

Basis and at-risk overrides link by link, passive activity netting with the rental allowance, and
the excess business loss. Worksheet 4 of Form 8582 nets the allowance against the losses of active
rentals, and worksheet 5 spreads the unallowed total over the losses that remain, each by shares
rounded at 12 places and the last one taking the rest. Trace rows, warnings and notes are left out.
-/

namespace MyBooks

inductive FilingStatus where
  | single | mfj | mfs | hoh | qss
  deriving DecidableEq, Repr

section AddBack

/-- The loop of `addBackLoss` over the negative characters, with what is left to add back. -/
def addBackFrom (share : CharacterAmounts) (capped negSum : Dec) :
    List IncomeCharacter → CharacterAmounts → Dec → CharacterAmounts
  | [], out, _ => out
  | [k], out, remaining => Function.update out k (share k + remaining)
  | k :: ks, out, remaining =>
    let part := min remaining (dDiv (capped * |share k|) negSum)
    addBackFrom share capped negSum ks (Function.update out k (share k + part)) (remaining - part)

def negatives (share : CharacterAmounts) : List IncomeCharacter :=
  incomeCharacters.filter fun k => share k < 0

def negSum (share : CharacterAmounts) : Dec := ((negatives share).map fun k => |share k|).sum

/-- Adds an amount back against the negative characters of a share, pro rata by their size. -/
def addBackLoss (share : CharacterAmounts) (amount : Dec) : CharacterAmounts :=
  if 0 < amount ∧ 0 < negSum share then
    let capped := min amount (negSum share)
    addBackFrom share capped (negSum share) (negatives share) share capped
  else share

end AddBack

section Works

def isPassiveActivity (activityType : ActivityType) : Bool :=
  activityType = .passive || activityType = .rental

/-- A link's share on its way through the limitations. -/
structure Work where
  share : AllocatedShare
  original : CharacterAmounts
  current : CharacterAmounts
  overrideDisallowed : Dec
  passiveSuspended : Dec

def Work.net (w : Work) : Dec := sumCharacters w.current

def Work.passive (w : Work) : Bool := isPassiveActivity w.share.activityType

def Work.activeRental (w : Work) : Bool :=
  w.share.activityType = .rental && w.share.activeParticipation

def works (income : AggregatedIncome) : List Work :=
  income.byPerson.flatMap fun e => e.2.shares.map fun s => ⟨s, s.share, s.share, 0, 0⟩

/-- A link's loss is capped at the size of its override. -/
def Work.limitByOverride (w : Work) : Work :=
  match w.share.allowedLossOverride with
  | none => w
  | some override =>
    if ¬w.net < 0 ∨ |w.net| ≤ |override| then w
    else
      let disallowed := |w.net| - |override|
      { w with current := addBackLoss w.current disallowed, overrideDisallowed := disallowed }

end Works

section Passive

structure PassiveNet where
  passiveIncome : Dec
  passiveLosses : Dec
  activeRentalNet : Dec
  deriving DecidableEq, Repr

def PassiveNet.add (n : PassiveNet) (w : Work) : PassiveNet where
  passiveIncome := if w.net < 0 then n.passiveIncome else n.passiveIncome + w.net
  passiveLosses := if w.net < 0 then n.passiveLosses + |w.net| else n.passiveLosses
  activeRentalNet := if w.activeRental then n.activeRentalNet + w.net else n.activeRentalNet

def passiveNet (ws : List Work) : PassiveNet := (ws.filter Work.passive).foldl .add ⟨0, 0, 0⟩

def PassiveNet.excess (n : PassiveNet) : Dec := dFloorZero (n.passiveLosses - n.passiveIncome)

/-- The loss of active rentals in the excess. -/
def PassiveNet.eligibleLoss (n : PassiveNet) : Dec :=
  if 0 < n.excess then min (dFloorZero (-n.activeRentalNet)) n.excess else 0

/-- The rental allowance of a filing status, and the income over which it phases out. -/
structure RentalAllowance where
  maximum : Dec
  start : Dec
  stop : Dec
  maximum_nonneg : 0 ≤ maximum

/-- The parameters that the limitations read. -/
structure LossLimitParameters where
  standard : RentalAllowance
  mfsLivingApart : RentalAllowance
  eblMfj : Dec
  eblStandard : Dec

inductive AllowanceVariant where
  | notNeeded | standard | mfsLivingApart | none
  deriving DecidableEq, Repr

structure RentalAllowanceResult where
  variant : AllowanceVariant
  maximum : Dec
  magi : Option Dec
  afterPhaseOut : Dec
  eligibleLoss : Dec
  used : Dec
  deriving DecidableEq, Repr

structure LossLimitationOptions where
  magi : Option Dec
  mfsLivedApartAllYear : Bool
  deriving DecidableEq, Repr

def allowanceVariant (filingStatus : FilingStatus) (livedApart : Bool) : AllowanceVariant :=
  if filingStatus ≠ .mfs then .standard else if livedApart then .mfsLivingApart else .none

/-- The allowance at a modified adjusted gross income. -/
def RentalAllowance.afterPhaseOut (a : RentalAllowance) (magi : Dec) : Dec :=
  if magi ≤ a.start then a.maximum
  else if a.stop ≤ magi ∨ a.stop ≤ a.start then 0
  else dDiv (a.maximum * (a.stop - magi)) (a.stop - a.start)

def RentalAllowance.result (a : RentalAllowance) (variant : AllowanceVariant) (magi : Dec)
    (eligibleLoss : Dec) : RentalAllowanceResult where
  variant := variant
  maximum := a.maximum
  magi := some magi
  afterPhaseOut := a.afterPhaseOut magi
  eligibleLoss := eligibleLoss
  used := min eligibleLoss (a.afterPhaseOut magi)

def rentalAllowance (p : LossLimitParameters) (filingStatus : FilingStatus)
    (options : LossLimitationOptions) (n : PassiveNet) : RentalAllowanceResult :=
  let unused : RentalAllowanceResult := ⟨.notNeeded, 0, none, 0, n.eligibleLoss, 0⟩
  if 0 < n.eligibleLoss then
    match options.magi, allowanceVariant filingStatus options.mfsLivedApartAllYear with
    | none, _ => unused
    | some magi, .standard => p.standard.result .standard magi n.eligibleLoss
    | some magi, .mfsLivingApart => p.mfsLivingApart.result .mfsLivingApart magi n.eligibleLoss
    | some magi, variant => ⟨variant, 0, some magi, 0, n.eligibleLoss, 0⟩
  else unused

/-- A passive link with a loss: whether it is an active rental's, and its size. -/
structure Loser where
  activeRental : Bool
  loss : Dec
  deriving DecidableEq, Repr

def Work.isLoser (w : Work) : Bool := w.passive && w.net < 0

def losers (ws : List Work) : List Loser :=
  (ws.filter Work.isLoser).map fun w => ⟨w.activeRental, |w.net|⟩

def rentalLossSum (ls : List Loser) : Dec := ((ls.filter (·.activeRental)).map (·.loss)).sum

/-- Worksheet 4: what the allowance leaves of each loss. -/
def worksheet4 (used lossSum : Dec) : Dec → List Loser → List Dec
  | _, [] => []
  | allowanceLeft, l :: ls =>
    if l.activeRental then
      let covered :=
        if ls.any (·.activeRental) then min l.loss (dDiv (used * l.loss) lossSum)
        else min allowanceLeft l.loss
      (l.loss - covered) :: worksheet4 used lossSum (allowanceLeft - covered) ls
    else l.loss :: worksheet4 used lossSum allowanceLeft ls

/-- Worksheet 5: what is suspended of each of the losses that remain. -/
def worksheet5 (suspended remainingSum : Dec) : Dec → List Dec → List Dec
  | _, [] => []
  | remaining, [loss] => [min remaining loss]
  | remaining, loss :: rest =>
    let part := min (min remaining loss)
      (if 0 < remainingSum then dDiv (suspended * loss) remainingSum else 0)
    part :: worksheet5 suspended remainingSum (remaining - part) rest

/-- What is suspended of each loser. -/
def suspendedParts (used suspended : Dec) (ls : List Loser) : List Dec :=
  let remaining := worksheet4 used (rentalLossSum ls) used ls
  worksheet5 suspended remaining.sum suspended remaining

def Work.suspend (w : Work) (part : Dec) : Work :=
  { w with current := addBackLoss w.current part, passiveSuspended := part }

/-- Each loser in turn has its part suspended. -/
def suspendLosers : List Work → List Dec → List Work
  | [], _ => []
  | w :: ws, parts =>
    if w.isLoser then w.suspend (parts.headD 0) :: suspendLosers ws parts.tail
    else w :: suspendLosers ws parts

end Passive

section Persons

/-- A person with their limited shares. -/
def PersonIncome.limit (p : PersonIncome) (ws : List Work) : PersonIncome :=
  { p with
    character := ws.foldl (fun character w =>
      fun k => character k + (w.current k - w.original k)) p.character
    shares := ws.map fun w => { w.share with share := w.current } }

/-- The persons in turn, each with the works of their shares. -/
def limitPersons : List (Id × PersonIncome) → List Work → Entries Id PersonIncome →
    Entries Id PersonIncome
  | [], _, byPerson => byPerson
  | (_, p) :: persons, ws, byPerson =>
    limitPersons persons (ws.drop p.shares.length)
      (byPerson.set p.personId (p.limit (ws.take p.shares.length)))

def businessCharacters : List IncomeCharacter := [.ordinary, .rental, .section1231]

def PersonIncome.businessNet (p : PersonIncome) : Dec :=
  (p.shares.filter fun s => s.activityType ≠ .investment).foldl (fun net s =>
    net + (businessCharacters.map s.share).sum) p.guaranteedPayments

def businessByPerson (byPerson : Entries Id PersonIncome) : Entries Id Dec :=
  byPerson.foldl (fun m e => m.set e.2.personId e.2.businessNet) []

/-- Adds to a person's ordinary income. -/
def addOrdinary (byPerson : Entries Id PersonIncome) (personId : Id) (part : Dec) :
    Entries Id PersonIncome :=
  match byPerson.get? personId with
  | some p => byPerson.set personId { p with character := p.character.plus .ordinary part }
  | none => byPerson

/-- The excess goes back to the persons with a business loss, pro rata, the last taking the rest. -/
def addExcessBack (excess lossSum : Dec) : List (Id × Dec) → Dec → Entries Id PersonIncome →
    Entries Id PersonIncome
  | [], _, byPerson => byPerson
  | [(pid, _)], remaining, byPerson => addOrdinary byPerson pid remaining
  | (pid, v) :: losers, remaining, byPerson =>
    let part := dDiv (excess * |v|) lossSum
    addExcessBack excess lossSum losers (remaining - part) (addOrdinary byPerson pid part)

end Persons

section Limitations

structure LossLimitationShareResult where
  linkId : Id
  personId : Id
  activityType : ActivityType
  passive : Bool
  net : Dec
  overrideDisallowed : Dec
  passiveSuspended : Dec
  allowed : Dec
  deriving DecidableEq, Repr

structure LossLimitationExact where
  overrideDisallowed : Dec
  passiveIncome : Dec
  passiveLosses : Dec
  rentalAllowance : RentalAllowanceResult
  suspendedPassiveLoss : Dec
  businessNet : Dec
  eblThreshold : Dec
  excessBusinessLoss : Dec
  shares : List LossLimitationShareResult
  income : AggregatedIncome
  needsMagi : Bool

def Work.result (w : Work) : LossLimitationShareResult where
  linkId := w.share.linkId
  personId := w.share.personId
  activityType := w.share.activityType
  passive := w.passive
  net := sumCharacters w.original
  overrideDisallowed := w.overrideDisallowed
  passiveSuspended := w.passiveSuspended
  allowed := w.net

def eblThreshold (p : LossLimitParameters) (filingStatus : FilingStatus) (businessNet : Dec) :
    Dec :=
  if businessNet < 0 then if filingStatus = .mfj then p.eblMfj else p.eblStandard else 0

def excessBusinessLoss (threshold businessNet : Dec) : Dec :=
  if businessNet < 0 then dFloorZero (|businessNet| - threshold) else 0

def limitBusinessLoss (excess : Dec) (byPerson : Entries Id PersonIncome) :
    Entries Id PersonIncome :=
  let losers := (businessByPerson byPerson).filter fun e => e.2 < 0
  if 0 < excess then addExcessBack excess (losers.map fun e => |e.2|).sum losers excess byPerson
  else byPerson

def applyLossLimitations (p : LossLimitParameters) (filingStatus : FilingStatus)
    (options : LossLimitationOptions) (income : AggregatedIncome) : LossLimitationExact :=
  let ws := (works income).map Work.limitByOverride
  let n := passiveNet ws
  let rental := rentalAllowance p filingStatus options n
  let suspended := dFloorZero (n.excess - rental.used)
  let limited :=
    if 0 < suspended then suspendLosers ws (suspendedParts rental.used suspended (losers ws))
    else ws
  let byPerson := limitPersons income.byPerson limited []
  let businessNet := (byPerson.map fun e => e.2.businessNet).sum
  let threshold := eblThreshold p filingStatus businessNet
  let excess := excessBusinessLoss threshold businessNet
  { overrideDisallowed := (ws.map (·.overrideDisallowed)).sum
    passiveIncome := n.passiveIncome, passiveLosses := n.passiveLosses, rentalAllowance := rental
    suspendedPassiveLoss := suspended, businessNet, eblThreshold := threshold
    excessBusinessLoss := excess, shares := limited.map Work.result
    income := { income with byPerson := limitBusinessLoss excess byPerson }
    needsMagi := 0 < n.eligibleLoss }

end Limitations

end MyBooks
