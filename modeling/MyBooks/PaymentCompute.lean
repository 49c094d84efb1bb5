import MyBooks.Walk
import Mathlib.Data.List.Sort
import Mathlib.Logic.Function.Basic

/-!
# The figures of a customer payment

From the open invoices and credits of a customer and what the owner chose, `computePayment` works out
what each invoice gets: what is typed, then the credits, then the cash that is left, oldest invoice
first. Rows it cannot use and amounts that do not fit are reported, not refused.
-/

namespace MyBooks

/-- An amount a client may send. -/
abbrev MoneyInput := { x : Dec // 0 ≤ x ∧ Cents x }

def centBalance (balanceDueExact : Dec) : Dec := round2 balanceDueExact

structure ComputeInvoice where
  invoiceId : Id
  invoiceNumber : String
  txnDate : String
  dueDate : Option String
  total : Dec
  balanceDueExact : Dec
  discountPercent : Option Dec
  discountDate : Option String
  discountTaken : Bool
  deriving DecidableEq, Repr

structure ComputeCredit where
  sourcePaymentId : Id
  remaining : MoneyInput

/-- A row of applications: no amount takes what is left of the payment. -/
structure ApplicationInput where
  invoiceId : Id
  amount : Option MoneyInput
  discountAmount : Option MoneyInput
  writeOffAmount : Option MoneyInput

structure CreditInput where
  sourcePaymentId : Id
  invoiceId : Id
  amount : Option MoneyInput

structure ComputeRequest where
  date : Option String
  amount : Option MoneyInput
  applications : Option (List ApplicationInput)
  creditApplications : List CreditInput
  writeOffThreshold : Option Dec

inductive ComputeProblem where
  | amountRequired
  | applicationsExceedAmount
  | overapplied (invoiceId : Id)
  | invoiceNotOpen (invoiceId : Id)
  | duplicateInvoice (invoiceId : Id)
  | creditNotAvailable (sourcePaymentId : Id)
  deriving DecidableEq, Repr

structure ComputedInvoice where
  invoiceId : Id
  invoiceNumber : String
  txnDate : String
  dueDate : Option String
  total : Dec
  balanceDue : Dec
  balanceDueExact : Dec
  payment : Dec
  discount : Dec
  writeOff : Dec
  credit : Dec
  remaining : Dec
  discountPercent : Option Dec
  discountDate : Option String
  discountAvailable : Dec
  suggestDiscount : Bool
  deriving DecidableEq, Repr

structure ComputeTotals where
  amountDue : Dec
  applied : Dec
  discountsAndCredits : Dec
  writeOffs : Dec
  unapplied : Dec
  deriving DecidableEq, Repr

inductive AmountSource where
  | typed | fromApplications
  deriving DecidableEq, Repr

structure Shortfall where
  invoiceId : Id
  amount : Dec
  withinWriteOffLimit : Bool
  deriving DecidableEq, Repr

structure ComputedApplication where
  invoiceId : Id
  amount : Dec
  discountAmount : Dec
  writeOffAmount : Dec
  balanceDueExact : Dec
  deriving DecidableEq, Repr

structure ComputedCredit where
  sourcePaymentId : Id
  invoiceId : Id
  amount : Dec
  balanceDueExact : Dec
  deriving DecidableEq, Repr

structure ComputeResult where
  amount : Dec
  amountSource : AmountSource
  invoices : List ComputedInvoice
  totals : ComputeTotals
  overpayment : Dec
  shortfalls : List Shortfall
  problems : List ComputeProblem
  applications : List ComputedApplication
  creditApplications : List ComputedCredit
  deriving DecidableEq, Repr

/-- The early-payment discount an invoice offers on a date. -/
def discountAvailable (inv : ComputeInvoice) (date : Option String) : Dec :=
  match inv.discountPercent, inv.discountDate, date with
  | some pct, some last, some date =>
    if inv.discountTaken ∨ last < date ∨ ¬0 < pct then 0
    else max (min (round2 (inv.total * pct / 100)) (centBalance inv.balanceDueExact)) 0
  | _, _, _ => 0

/-- Oldest first: by date, then number, then id. -/
def ComputeInvoice.notAfter (a b : ComputeInvoice) : Prop :=
  a.txnDate < b.txnDate ∨ (a.txnDate = b.txnDate ∧ (a.invoiceNumber < b.invoiceNumber ∨
    (a.invoiceNumber = b.invoiceNumber ∧ ¬b.invoiceId < a.invoiceId)))

instance : DecidableRel ComputeInvoice.notAfter := fun a b =>
  inferInstanceAs (Decidable (a.txnDate < b.txnDate ∨ (a.txnDate = b.txnDate ∧
    (a.invoiceNumber < b.invoiceNumber ∨
      (a.invoiceNumber = b.invoiceNumber ∧ ¬b.invoiceId < a.invoiceId)))))

def sortOpenInvoices (rows : List ComputeInvoice) : List ComputeInvoice :=
  rows.insertionSort ComputeInvoice.notAfter

/-- The entry of a map filled from a list: of two with one key the later. -/
def lastOf {α : Type*} (key : α → Id) (rows : List α) (id : Id) : Option α :=
  (rows.filter fun r => key r = id).getLast?

/-- What each invoice has been given so far. -/
structure Given where
  cash : Id → Dec := fun _ => 0
  disc : Id → Dec := fun _ => 0
  wo : Id → Dec := fun _ => 0
  cred : Id → Dec := fun _ => 0

/-- What is left of an invoice's cent balance. -/
def Given.left (g : Given) (inv : ComputeInvoice) : Dec :=
  centBalance inv.balanceDueExact - g.cash inv.invoiceId - g.disc inv.invoiceId -
    g.wo inv.invoiceId - g.cred inv.invoiceId

def Given.setCash (g : Given) (id : Id) (x : Dec) : Given :=
  { g with cash := Function.update g.cash id x }

/-- Typed cash, discounts and write-offs. -/
structure TypedRows where
  given : Given := {}
  fills : List ComputeInvoice := []
  typedCash : Dec := 0
  seen : List Id := []
  problems : List ComputeProblem := []

section Typed

variable (byId : Id → Option ComputeInvoice)

def typedRow (s : TypedRows) (row : ApplicationInput) : TypedRows :=
  if row.invoiceId ∈ s.seen then
    { s with problems := s.problems ++ [.duplicateInvoice row.invoiceId] }
  else
    let s := { s with seen := row.invoiceId :: s.seen }
    match byId row.invoiceId with
    | none => { s with problems := s.problems ++ [.invoiceNotOpen row.invoiceId] }
    | some inv =>
      let g := { s.given with
        disc := Function.update s.given.disc inv.invoiceId
          ((row.discountAmount.map (·.val)).getD 0)
        wo := Function.update s.given.wo inv.invoiceId ((row.writeOffAmount.map (·.val)).getD 0) }
      match row.amount with
      | none => { s with given := g, fills := s.fills ++ [inv] }
      | some c => { s with given := g.setCash inv.invoiceId c.val
                           typedCash := s.typedCash + c.val }

def typedRows (applications : List ApplicationInput) : TypedRows :=
  applications.foldl (typedRow byId) {}

end Typed

/-- A credit applied to an invoice. -/
structure CreditUse where
  sourcePaymentId : Id
  invoiceId : Id
  amount : Dec
  deriving DecidableEq, Repr

/-- What is left of the credits, and where it went. -/
structure CreditRows where
  given : Given
  creditLeft : Id → Option Dec
  creditRows : List CreditUse := []
  problems : List ComputeProblem

inductive CreditPass where
  | typed | fill
  deriving DecidableEq, Repr

section Credits

variable (byId : Id → Option ComputeInvoice)

/-- What a credit row takes of the `avail` that is left of its credit. -/
def creditAmount (g : Given) (inv : ComputeInvoice) (avail : Dec) : Option MoneyInput → Dec
  | some x => x.val
  | none => max (min avail (g.left inv)) 0

/-- The credit gives the invoice `x` of the `avail` that is left of it. -/
def CreditRows.use (s : CreditRows) (sourcePaymentId : Id) (inv : ComputeInvoice) (avail x : Dec) :
    CreditRows :=
  { given := { s.given with
      cred := Function.update s.given.cred inv.invoiceId (s.given.cred inv.invoiceId + x) }
    creditLeft := Function.update s.creditLeft sourcePaymentId (some (avail - x))
    creditRows := if 0 < x then s.creditRows ++ [⟨sourcePaymentId, inv.invoiceId, x⟩]
      else s.creditRows
    problems := if avail < x then s.problems ++ [.creditNotAvailable sourcePaymentId]
      else s.problems }

def creditInputRow (pass : CreditPass) (s : CreditRows) (row : CreditInput) : CreditRows :=
  if row.amount.isNone ≠ (pass = .fill) then s
  else match byId row.invoiceId with
  | none => { s with problems := s.problems ++ [.invoiceNotOpen row.invoiceId] }
  | some inv =>
    match s.creditLeft row.sourcePaymentId with
    | none => { s with problems := s.problems ++ [.creditNotAvailable row.sourcePaymentId] }
    | some avail =>
      s.use row.sourcePaymentId inv avail (creditAmount s.given inv avail row.amount)

/-- Typed credits first, then those that fill. -/
def creditPasses (rows : List CreditInput) (s : CreditRows) : CreditRows :=
  rows.foldl (creditInputRow byId .fill) (rows.foldl (creditInputRow byId .typed) s)

end Credits

/-- An invoice takes what it can of the rest. -/
def takeCash (p : Given × Dec) (inv : ComputeInvoice) : Given × Dec :=
  let take := max (min p.2 (p.1.left inv)) 0
  (p.1.setCash inv.invoiceId take, p.2 - take)

/-- Oldest first, while there is a rest. -/
def autoCash (p : Given × Dec) (inv : ComputeInvoice) : Given × Dec :=
  if 0 < p.2 then takeCash p inv else p

/-- An invoice takes all that is left of it. -/
def takeAll (p : Given × Dec) (inv : ComputeInvoice) : Given × Dec :=
  let take := max (p.1.left inv) 0
  (p.1.setCash inv.invoiceId take, p.2 + take)

/-- The cash: the payment's amount, and what each invoice gets of it. -/
def cashRows (req : ComputeRequest) (invoices fills : List ComputeInvoice) (typedCash : Dec)
    (g : Given) : Dec × AmountSource × Given :=
  match req.applications, req.amount with
  | none, amount =>
    let amount := (amount.map (·.val)).getD 0
    (amount, .typed, (invoices.foldl autoCash (g, amount)).1)
  | some _, none =>
    let p := (sortOpenInvoices fills).foldl takeAll (g, typedCash)
    (p.2, .fromApplications, p.1)
  | some _, some amount =>
    (amount.val, .typed,
      ((sortOpenInvoices fills).foldl takeCash (g, max (amount.val - typedCash) 0)).1)

section Result

variable (g : Given) (req : ComputeRequest)

/-- What an invoice is given in all. -/
def Given.settled (inv : ComputeInvoice) : Dec :=
  g.cash inv.invoiceId + g.disc inv.invoiceId + g.wo inv.invoiceId + g.cred inv.invoiceId

def Given.remaining (inv : ComputeInvoice) : Dec :=
  centBalance inv.balanceDueExact - g.settled inv

def computedInvoice (inv : ComputeInvoice) : ComputedInvoice :=
  let cents := centBalance inv.balanceDueExact
  let avail := discountAvailable inv req.date
  { invoiceId := inv.invoiceId, invoiceNumber := inv.invoiceNumber, txnDate := inv.txnDate
    dueDate := inv.dueDate
    total := round2 (round2 inv.total)
    balanceDue := round2 cents
    balanceDueExact := inv.balanceDueExact
    payment := round2 (g.cash inv.invoiceId)
    discount := round2 (g.disc inv.invoiceId)
    writeOff := round2 (g.wo inv.invoiceId)
    credit := round2 (g.cred inv.invoiceId)
    remaining := round2 (g.remaining inv)
    discountPercent := inv.discountPercent
    discountDate := inv.discountDate
    discountAvailable := round2 avail
    suggestDiscount :=
      0 < avail ∧ g.disc inv.invoiceId = 0 ∧ g.cash inv.invoiceId = cents - avail }

def shortfall (inv : ComputeInvoice) : Option Shortfall :=
  if 0 < g.settled inv ∧ 0 < g.remaining inv then
    some ⟨inv.invoiceId, round2 (g.remaining inv),
      req.writeOffThreshold.any fun t => ¬t < g.remaining inv⟩
  else none

def computedApplication (inv : ComputeInvoice) : Option ComputedApplication :=
  if 0 < g.cash inv.invoiceId + g.disc inv.invoiceId + g.wo inv.invoiceId then
    some ⟨inv.invoiceId, round2 (g.cash inv.invoiceId), round2 (g.disc inv.invoiceId),
      round2 (g.wo inv.invoiceId), inv.balanceDueExact⟩
  else none

end Result

/-- The figures once everything is given out: `g` of the payment's `amount`, and by the rows of
`c`. -/
def paymentResult (req : ComputeRequest) (invoices : List ComputeInvoice) (c : CreditRows)
    (amount : Dec) (amountSource : AmountSource) (g : Given) : ComputeResult :=
  let sum (f : Id → Dec) : Dec := (invoices.map fun inv => f inv.invoiceId).sum
  let applied := sum g.cash
  let unapplied := max (amount - applied) 0
  { amount := round2 amount
    amountSource := amountSource
    invoices := invoices.map (computedInvoice g req)
    totals :=
      { amountDue := round2 (invoices.map fun inv => centBalance inv.balanceDueExact).sum
        applied := round2 applied
        discountsAndCredits := round2 (sum g.disc + sum g.cred)
        writeOffs := round2 (sum g.wo)
        unapplied := round2 unapplied }
    overpayment := round2 unapplied
    shortfalls := invoices.filterMap (shortfall g req)
    problems := c.problems ++
      ((invoices.filter fun inv => g.remaining inv < 0).map fun inv => .overapplied inv.invoiceId) ++
      (if amount < applied then [.applicationsExceedAmount] else []) ++
      if ¬0 < amount ∧ ¬0 < applied ∧ ¬0 < sum g.disc ∧ ¬0 < sum g.wo ∧ ¬0 < sum g.cred then
        [.amountRequired] else []
    applications := invoices.filterMap (computedApplication g)
    creditApplications := c.creditRows.map fun r =>
      ⟨r.sourcePaymentId, r.invoiceId, round2 r.amount,
        ((lastOf (·.invoiceId) invoices r.invoiceId).map (·.balanceDueExact)).getD 0⟩ }

def computePayment (openInvoices : List ComputeInvoice) (req : ComputeRequest)
    (credits : List ComputeCredit) : ComputeResult :=
  let invoices := sortOpenInvoices (openInvoices.filter fun i => 0 < centBalance i.balanceDueExact)
  let byId := lastOf (·.invoiceId) invoices
  let t := typedRows byId (req.applications.getD [])
  let c := creditPasses byId req.creditApplications
    { given := t.given, problems := t.problems
      creditLeft := fun id => (lastOf (·.sourcePaymentId) credits id).map (·.remaining.val) }
  let (amount, amountSource, g) := cashRows req invoices t.fills t.typedCash c.given
  paymentResult req invoices c amount amountSource g

end MyBooks
