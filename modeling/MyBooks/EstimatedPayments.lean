import MyBooks.Walk
import Mathlib.Data.List.Sort

/-!
# Applying payments to a schedule of installments

The withholding shares and the dated payments of one jurisdiction meet the installments as one sorted
stream of events: what is due comes in, what is paid goes to the earliest installment that is due and
unpaid, and what is left over waits for the next one to fall due. Each installment keeps the timeline
of its unpaid balance.

Amounts are exact decimals. A date is its day number, which orders dates as their texts are ordered.
-/

namespace MyBooks

inductive PaymentSource where
  | gl
  | manual
  | priorYearOverpayment
  deriving DecidableEq, Repr

inductive AppliedSource where
  | payment (source : PaymentSource)
  | withholding
  | carry
  deriving DecidableEq, Repr

structure InstallmentDue where
  index : ℕ
  dueDate : ℤ
  required : Dec
  deriving DecidableEq, Repr

structure EstimatePayment where
  id : Id
  date : ℤ
  amount : Dec
  source : PaymentSource
  deriving DecidableEq, Repr

structure PaymentApplicationInput where
  jurisdiction : String
  installments : List InstallmentDue
  withholdingShares : List Dec
  payments : List EstimatePayment
  deriving DecidableEq, Repr

structure AppliedPayment where
  paymentId : Id
  date : ℤ
  amount : Dec
  source : AppliedSource
  deriving DecidableEq, Repr

/-- The unpaid balance of an installment from a date on. -/
structure BalancePoint where
  date : ℤ
  balance : Dec
  deriving DecidableEq, Repr

structure InstallmentExact where
  required : Dec
  withholdingCredited : Dec
  carriedIn : Dec
  netRequired : Dec
  unpaidAtEnd : Dec
  deriving DecidableEq, Repr

structure InstallmentApplication where
  index : ℕ
  dueDate : ℤ
  required : Dec
  withholdingCredited : Dec
  carriedIn : Dec
  netRequired : Dec
  applied : List AppliedPayment
  paidInFullOn : Option ℤ
  unpaidAtEnd : Dec
  timeline : List BalancePoint
  exact : InstallmentExact
  deriving DecidableEq, Repr

structure ApplicationTotals where
  excessAfterLast : Dec
  totalRequired : Dec
  totalWithholding : Dec
  totalEstimates : Dec
  totalUnpaidAtEnd : Dec
  deriving DecidableEq, Repr

structure PaymentApplicationResult where
  jurisdiction : String
  installments : List InstallmentApplication
  rounded : ApplicationTotals
  exact : ApplicationTotals
  deriving DecidableEq, Repr

inductive PaymentsError where
  | shape
  deriving DecidableEq, Repr

section Events

inductive EventKind where
  | due
  | pay (payment : AppliedPayment)
  deriving DecidableEq, Repr

structure Event where
  date : ℤ
  kind : EventKind
  amount : Dec
  index : ℕ
  deriving DecidableEq, Repr

def EventKind.order : EventKind → ℕ
  | .due => 0
  | .pay _ => 1

/-- By date; on one day what falls due, then the withholding shares, then the payments. -/
def Event.le (a b : Event) : Prop :=
  a.date < b.date ∨ a.date = b.date ∧
    (a.kind.order < b.kind.order ∨ a.kind.order = b.kind.order ∧ a.index ≤ b.index)

instance : DecidableRel Event.le := fun a b =>
  inferInstanceAs (Decidable (a.date < b.date ∨ a.date = b.date ∧
    (a.kind.order < b.kind.order ∨ a.kind.order = b.kind.order ∧ a.index ≤ b.index)))

/-- An installment falls due, and its withholding share is paid, at its due date. -/
def installmentEvents (x : (InstallmentDue × Dec) × ℕ) : List Event :=
  { date := x.1.1.dueDate, kind := .due, amount := x.1.1.required, index := x.2 } ::
    if 0 < x.1.2 then
      [{ date := x.1.1.dueDate, amount := x.1.2, index := x.2
         kind := .pay { paymentId := "withholding." ++ toString x.2, date := x.1.1.dueDate
                        amount := x.1.2, source := .withholding } }]
    else []

def paymentEvent (n : ℕ) (p : EstimatePayment) : Event :=
  { date := p.date, amount := p.amount, index := n
    kind := .pay { paymentId := p.id, date := p.date, amount := p.amount
                   source := .payment p.source } }

/-- The events in the order they are pushed. -/
def PaymentApplicationInput.pushed (inp : PaymentApplicationInput) : List Event :=
  ((inp.installments.zip inp.withholdingShares).zipIdx.flatMap installmentEvents) ++
    (inp.payments.filter fun p => 0 < p.amount).map (paymentEvent inp.installments.length)

def PaymentApplicationInput.events (inp : PaymentApplicationInput) : List Event :=
  inp.pushed.insertionSort Event.le

end Events

section Loop

/-- What the loop holds of one installment. -/
structure Running where
  balance : Dec := 0
  due : Bool := false
  paidOn : Option ℤ := none
  carriedIn : Dec := 0
  applied : List AppliedPayment := []
  timeline : List BalancePoint := []
  deriving DecidableEq, Repr

structure PayState where
  rows : List Running
  excess : Dec := 0
  deriving DecidableEq, Repr

/-- Installment `i` falls due; `carry` of the excess meets it. -/
def Running.fallDue (row : Running) (i : ℕ) (date : ℤ) (amount carry : Dec) : Running :=
  let unpaid := amount - carry
  let balance := if 0 < unpaid then unpaid else 0
  { row with
    due := true
    carriedIn := carry
    applied := row.applied ++
      if 0 < carry then
        [{ paymentId := "carry." ++ toString i, date := date, amount := carry, source := .carry }]
      else []
    balance := balance
    paidOn := if 0 < unpaid then row.paidOn else some date
    timeline := row.timeline ++ [⟨date, balance⟩] }

/-- The installment takes `amount` of a payment. -/
def Running.take (row : Running) (date : ℤ) (payment : AppliedPayment) (amount : Dec) :
    Running :=
  let balance := row.balance - amount
  { row with
    balance := balance
    applied := row.applied ++ [{ payment with amount := amount }]
    timeline := row.timeline ++ [⟨date, balance⟩]
    paidOn := if 0 < balance then row.paidOn else some date }

/-- The installments in order take what they are short of; what is left of the payment. -/
def payRows (date : ℤ) (payment : AppliedPayment) : Dec → List Running → List Running × Dec
  | remaining, [] => ([], remaining)
  | remaining, row :: rows =>
    if 0 < remaining then
      if row.due ∧ 0 < row.balance then
        let amount := min row.balance remaining
        let rest := payRows date payment (remaining - amount) rows
        (row.take date payment amount :: rest.1, rest.2)
      else
        let rest := payRows date payment remaining rows
        (row :: rest.1, rest.2)
    else (row :: rows, remaining)

def PayState.step (s : PayState) (ev : Event) : PayState :=
  match ev.kind with
  | .due =>
    let carry := min s.excess ev.amount
    { rows := s.rows.modify ev.index fun row => row.fallDue ev.index ev.date ev.amount carry
      excess := s.excess - carry }
  | .pay payment =>
    let paid := payRows ev.date payment ev.amount s.rows
    { rows := paid.1, excess := if 0 < paid.2 then s.excess + paid.2 else s.excess }

def PayState.run (s : PayState) (events : List Event) : PayState := events.foldl PayState.step s

/-- Before the first event. -/
def PaymentApplicationInput.start (inp : PaymentApplicationInput) : PayState :=
  { rows := inp.installments.map fun _ => {} }

def PaymentApplicationInput.final (inp : PaymentApplicationInput) : PayState :=
  inp.start.run inp.events

end Loop

def dRoundDollars (x : Dec) : Dec := toPlaces 0 x

/-- An installment's figures: what was required of it and its withholding share, the index it is
given, and what the loop ended with. -/
def installmentApplication (x : ((InstallmentDue × Dec) × ℕ) × Running) : InstallmentApplication :=
  let inst := x.1.1.1
  let wh := x.1.1.2
  let row := x.2
  let netRequired := min inst.required (inst.required - wh - row.carriedIn)
  let net := if 0 < netRequired then netRequired else 0
  let whCredited := min wh (inst.required - row.carriedIn)
  let exact : InstallmentExact :=
    { required := inst.required
      withholdingCredited := if 0 < whCredited then whCredited else 0
      carriedIn := row.carriedIn
      netRequired := net
      unpaidAtEnd := row.balance }
  { index := x.1.2
    dueDate := inst.dueDate
    required := dRoundDollars exact.required
    withholdingCredited := dRoundDollars exact.withholdingCredited
    carriedIn := dRoundDollars exact.carriedIn
    netRequired := dRoundDollars net
    applied := row.applied
    paidInFullOn := row.paidOn
    unpaidAtEnd := dRoundDollars row.balance
    timeline := row.timeline
    exact := exact }

def ApplicationTotals.round (t : ApplicationTotals) : ApplicationTotals :=
  { excessAfterLast := dRoundDollars t.excessAfterLast
    totalRequired := dRoundDollars t.totalRequired
    totalWithholding := dRoundDollars t.totalWithholding
    totalEstimates := dRoundDollars t.totalEstimates
    totalUnpaidAtEnd := dRoundDollars t.totalUnpaidAtEnd }

/-- What the loop ended with, put into the result. -/
def PaymentApplicationInput.result (inp : PaymentApplicationInput) : PaymentApplicationResult :=
  let exact : ApplicationTotals :=
    { excessAfterLast := inp.final.excess
      totalRequired := (inp.installments.map InstallmentDue.required).sum
      totalWithholding := inp.withholdingShares.sum
      totalEstimates :=
        ((inp.payments.filter fun p => 0 < p.amount).map EstimatePayment.amount).sum
      totalUnpaidAtEnd := (inp.final.rows.map Running.balance).sum }
  { jurisdiction := inp.jurisdiction
    installments :=
      ((inp.installments.zip inp.withholdingShares).zipIdx.zip inp.final.rows).map
        installmentApplication
    rounded := exact.round
    exact := exact }

def applyPayments (inp : PaymentApplicationInput) :
    Except PaymentsError PaymentApplicationResult :=
  if inp.withholdingShares.length ≠ inp.installments.length then .error .shape else .ok inp.result

end MyBooks
