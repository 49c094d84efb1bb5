import MyBooks.EstimatedPayments
import MyBooks.Calendar

/-!
# The underpayment penalty

Each installment's unpaid balance accrues from its due date until it is paid or the return is due, at
the rate in force: by the day, by months or parts of one, or by months compounded. One piece accrues
between two points of the timeline. A quotient is taken as exact.
-/

namespace MyBooks

/-- No rate is an unknown one: nothing can be computed for that day. -/
structure RateOnDate where
  rate : Option Dec
  covered : Bool
  deriving DecidableEq, Repr

abbrev RateLookup := ℤ → RateOnDate

inductive PenaltyMethod where
  | dailySimple
  | monthlyOrFraction
  | monthlyCompound
  | tieredFlat
  deriving DecidableEq, Repr

inductive WaiverReason where
  | priorYearZeroTax
  | belowMinBalance
  | estimatesNotRequired
  | noEstimateRegime
  | other
  deriving DecidableEq, Repr

structure PenaltyWaiver where
  reason : WaiverReason
  detail : String
  deriving DecidableEq, Repr

/-- A note of the assumptions page. -/
inductive PenaltyNote where
  | caller (text : String)
  | notComputed
  | noPenalty (detail : String)
  | lastInstallmentRelief (date : ℤ)
  | estimate
  deriving DecidableEq, Repr

structure PenaltyPolicy where
  jurisdiction : String
  method : PenaltyMethod
  rateOn : RateLookup
  returnDueDate : ℤ
  waiver : Option PenaltyWaiver
  lastInstallmentReliefDate : Option ℤ
  verify : Bool
  notes : List String

/-- `toDate` is exclusive; the units are days or months. -/
structure PenaltySegment where
  fromDate : ℤ
  toDate : ℤ
  units : ℤ
  balance : Dec
  rate : Dec
  daysInYear : Option ℕ
  rateUncovered : Bool
  amount : Dec
  deriving DecidableEq, Repr

structure InstallmentPenalty where
  index : ℕ
  dueDate : ℤ
  accruedTo : Option ℤ
  segments : List PenaltySegment
  penalty : Dec
  exact : Dec
  verify : Bool
  deriving DecidableEq, Repr

structure PenaltyTotals where
  total : Dec
  totalBeforeWaiver : Dec
  deriving DecidableEq, Repr

structure PenaltyResult where
  jurisdiction : String
  method : PenaltyMethod
  computed : Bool
  installments : List InstallmentPenalty
  rounded : PenaltyTotals
  waiver : Option PenaltyWaiver
  verify : Bool
  notes : List PenaltyNote
  exact : PenaltyTotals
  deriving DecidableEq, Repr

/-- The months from `fromDate` to `toDate`, a part of one counted whole. -/
def monthsOrFraction (fromDate toDate : ℤ) : ℤ :=
  if toDate ≤ fromDate then 0
  else
    let a := civil fromDate
    let b := civil toDate
    let spanMonths := (b.y - a.y) * 12 + (b.m - a.m)
    let wholeMonths := if b.d < a.d then spanMonths - 1 else spanMonths
    let part := if b.d = a.d then 0 else 1
    max (wholeMonths + part) 1

def growth (monthly : Dec) : ℕ → Dec
  | 0 => 1
  | months + 1 => growth monthly months * monthly

def compoundGrowth (rate : Dec) (months : ℤ) : Dec := growth (1 + rate / 12) months.toNat - 1

def PenaltyPolicy.rate (policy : PenaltyPolicy) (day : ℤ) : Dec :=
  (policy.rateOn day).rate.getD 0

section Daily

/-- The walk over the days of a piece: the run of days at one rate and year length, and the segments
of the runs before it. -/
structure DailyRun where
  segments : List PenaltySegment := []
  verify : Bool := false
  runStart : ℤ
  runRate : Option RateOnDate := none
  runYearDays : ℕ := 0

def DailyRun.flush (balance : Dec) (stop : ℤ) (run : DailyRun) : DailyRun :=
  match run.runRate with
  | none => run
  | some r =>
    if stop ≤ run.runStart then run
    else
      let units := stop - run.runStart
      let rate := r.rate.getD 0
      { run with
        segments := run.segments ++
          [{ fromDate := run.runStart, toDate := stop, units := units, balance := balance
             rate := rate, daysInYear := some run.runYearDays, rateUncovered := !r.covered
             amount := balance * rate * units / run.runYearDays }] }

/-- The day `day` to `day + 1` is priced at the rate and year length of `day + 1`. -/
def dailyStep (balance : Dec) (policy : PenaltyPolicy) (run : DailyRun) (day : ℤ) : DailyRun :=
  let priced := day + 1
  let r := policy.rateOn priced
  let yearDays := daysInYear (civil priced).y
  let run := { run with verify := run.verify || r.rate.isNone || !r.covered }
  if run.runRate = some r ∧ yearDays = run.runYearDays then run
  else
    { run.flush balance day with runStart := day, runRate := some r, runYearDays := yearDays }

structure AccrualPiece where
  segments : List PenaltySegment
  verify : Bool

def accrueDaily (balance : Dec) (fromDate toDate : ℤ) (policy : PenaltyPolicy) : AccrualPiece :=
  let days := (List.range (toDate - fromDate).toNat).map fun k : ℕ => fromDate + k
  let run := (days.foldl (dailyStep balance policy) { runStart := fromDate }).flush balance toDate
  { segments := run.segments, verify := run.verify }

end Daily

def accrueMonthly (balance : Dec) (fromDate toDate : ℤ) (policy : PenaltyPolicy)
    (compound : Bool) : AccrualPiece :=
  let r := policy.rateOn fromDate
  let months := monthsOrFraction fromDate toDate
  let rate := r.rate.getD 0
  let amount :=
    if compound then balance * compoundGrowth rate months else balance * (rate / 12) * months
  { segments :=
      [{ fromDate := fromDate, toDate := toDate, units := months, balance := balance, rate := rate
         daysInYear := none, rateUncovered := !r.covered, amount := amount }]
    verify := r.rate.isNone || !r.covered }

def accruePiece (balance : Dec) (fromDate toDate : ℤ) (policy : PenaltyPolicy) : AccrualPiece :=
  if policy.method = .dailySimple then accrueDaily balance fromDate toDate policy
  else accrueMonthly balance fromDate toDate policy (policy.method = .monthlyCompound)

/-- What has accrued on an installment so far. -/
structure Accrued where
  segments : List PenaltySegment := []
  verify : Bool := false
  accruedTo : Option ℤ := none

/-- Where the piece that starts at a point ends: at the next point, or when the return is due. -/
def pieceEnd (policy : PenaltyPolicy) (rest : List BalancePoint) : ℤ :=
  min ((rest.head?.map BalancePoint.date).getD policy.returnDueDate) policy.returnDueDate

def accruePoints (policy : PenaltyPolicy) : List BalancePoint → Accrued → Accrued
  | [], acc => acc
  | p :: rest, acc =>
    if 0 < p.balance ∧ p.date < pieceEnd policy rest then
      let piece := accruePiece p.balance p.date (pieceEnd policy rest) policy
      accruePoints policy rest
        { segments := acc.segments ++ piece.segments
          verify := acc.verify || piece.verify
          accruedTo := some (pieceEnd policy rest) }
    else accruePoints policy rest acc

def installmentPenalty (policy : PenaltyPolicy) (inst : InstallmentApplication) :
    InstallmentPenalty :=
  let acc : Accrued :=
    if policy.method = .tieredFlat then {}
    else
      let acc := accruePoints policy inst.timeline {}
      { acc with accruedTo := acc.accruedTo <|> inst.paidInFullOn }
  let exact := (acc.segments.map PenaltySegment.amount).sum
  { index := inst.index, dueDate := inst.dueDate, accruedTo := acc.accruedTo
    segments := acc.segments, penalty := dRoundDollars exact, exact := exact
    verify := acc.verify }

def accruePenalty (applied : PaymentApplicationResult) (policy : PenaltyPolicy) : PenaltyResult :=
  let computed := policy.method ≠ .tieredFlat
  let installments := applied.installments.map (installmentPenalty policy)
  let totalBeforeWaiver := (installments.map InstallmentPenalty.exact).sum
  let total := if policy.waiver.isSome then 0 else totalBeforeWaiver
  { jurisdiction := policy.jurisdiction
    method := policy.method
    computed := computed
    installments := installments
    rounded := { total := dRoundDollars total
                 totalBeforeWaiver := dRoundDollars totalBeforeWaiver }
    waiver := policy.waiver
    verify := policy.verify || !computed || installments.any InstallmentPenalty.verify
    notes := policy.notes.map .caller ++ (if computed then [] else [.notComputed]) ++
      (policy.waiver.map fun w => PenaltyNote.noPenalty w.detail).toList ++
      (policy.lastInstallmentReliefDate.map PenaltyNote.lastInstallmentRelief).toList ++ [.estimate]
    exact := { total := total, totalBeforeWaiver := totalBeforeWaiver } }

/-- One rate for every day. -/
def flatRateLookup (rate : Dec) : RateLookup := fun _ => { rate := some rate, covered := true }

end MyBooks
