import MyBooks.Books
import MyBooks.Calendar
import MyBooks.Result

/-!
# Finance charges

A finance charge of a client is of the client's open invoices as of a day, each for the days since it
was due or was last charged through. Assessing charges all the clients named or none: the rows are
computed on the books as they are, and an invoice is posted for each charge, with its assessment and
what it is of. What is open on a day (`OpenItem`) comes with the call, as due dates and balances change
between calls.
-/

namespace MyBooks

namespace FinanceCharges

/-- A day, by number. -/
abbrev Day := ℤ

inductive OpenItemKind
  | invoice
  | credit
  | charge
  | other
  deriving DecidableEq

structure OpenItem where
  contactId : Option Id
  txnId : Id
  date : Day
  dueDate : Option Day
  openAmount : Dec
  openExact : Dec
  kind : OpenItemKind
  isFinanceCharge : Bool
  deriving DecidableEq

structure FinanceChargeSettings where
  annualRate : Option Dec
  minimum : Dec
  graceDays : ℤ
  onFinanceCharges : Bool
  incomeAccountId : Option Id

structure Person where
  id : Id
  isActive : Bool
  companyId : Option Id

/-- What of an invoice a charge is of. -/
structure ChargeSource where
  invoiceId : Id
  dueDate : Day
  openAmount : Dec
  fromDate : Day
  days : ℤ
  amount : Dec
  deriving DecidableEq

inductive SkippedReason
  | inCredit
  | inactive
  deriving DecidableEq

structure ChargeRow where
  contactId : Id
  overdueBalance : Dec
  charge : Dec := 0
  sources : List ChargeSource := []
  minimumAdjustment : Option Dec := none
  alreadyAssessed : Bool
  skippedReason : Option SkippedReason := none
  hasOpenCredits : Option Dec := none
  ticked : Bool := false
  deriving DecidableEq

/-- A source of an assessment, charged from its date through the assessment's. -/
structure StoredSource extends ChargeSource where
  throughDate : Day
  deriving DecidableEq

structure Assessment where
  companyId : Id
  contactId : Id
  period : ℤ
  assessmentDate : Day
  invoiceId : ℕ
  sources : List StoredSource
  voided : Bool := false
  deriving DecidableEq

structure InvoiceLine where
  accountId : Id
  debit : Dec
  credit : Dec
  deriving DecidableEq

/-- A finance-charge invoice, with the minimum its charge was computed with. -/
structure ChargeInvoice where
  id : ℕ
  contactId : Id
  companyId : Id
  txnDate : Day
  dueDate : Day
  total : Dec
  lines : List InvoiceLine
  minimum : Dec
  isVoid : Bool := false
  deriving DecidableEq

structure Charges where
  assessments : List Assessment := []
  invoices : List ChargeInvoice := []
  nextId : ℕ := 0

inductive FinanceChargeError
  | companyRequired
  | tooManyContacts
  | dateInFuture
  | notSetUp
  | lockDate
  | customerNotFound
  | assessed (contactIds : List Id)
  | changed (contactId : Id) (charge : Dec)
  | ledger
  deriving DecidableEq

def MAX_ASSESS_CONTACTS : ℕ := 500

section Books

variable (s : Charges)

/-- The sources of the assessments that are not void. -/
def Charges.liveSources : List StoredSource :=
  (s.assessments.filter fun a => !a.voided).flatMap (·.sources)

/-- The latest day an invoice is charged through. -/
def Charges.through (invoiceId : Id) : Option Day :=
  ((s.liveSources.filter fun x => x.invoiceId = invoiceId).map (·.throughDate)).max?

def Charges.hasLive (companyId contactId : Id) (period : ℤ) : Bool :=
  s.assessments.any fun a =>
    a.companyId = companyId && a.contactId = contactId && a.period = period && !a.voided

end Books

section Rows

variable (s : Charges) (d : Day) (settings : FinanceChargeSettings)

/-- The source of an open item, if it is charged. -/
def chargeSource (it : OpenItem) : Option ChargeSource :=
  if it.kind ≠ .invoice ∨ it.openAmount ≤ 0 then none
  else if it.isFinanceCharge ∧ !settings.onFinanceCharges then none
  else
    let due := it.dueDate.getD it.date
    let t := s.through it.txnId
    let start :=
      match t with
      | some t => if due < t then t else due
      | none => due
    let days := d - start
    if days ≤ 0 then none
    else if t = none ∧ days ≤ settings.graceDays then none
    else
      some { invoiceId := it.txnId, dueDate := due, openAmount := it.openAmount, fromDate := start, days := days
             amount := round2 (it.openAmount * settings.annualRate.getD 0 / 100 * days / 365) }

def sourcesTotal (sources : List ChargeSource) : Dec := (sources.map (·.amount)).sum

/-- A client's row. Its figures are sums of whole cents. -/
def chargeRow (companyId : Id) (items : List OpenItem) (p : Person) : ChargeRow :=
  let mine := items.filter fun it => it.contactId = some p.id
  let overdue := ((mine.filter fun it =>
    it.kind = .invoice && 0 < it.openAmount && it.dueDate.any (· < d)).map (·.openAmount)).sum
  let row : ChargeRow :=
    { contactId := p.id, overdueBalance := overdue
      alreadyAssessed := s.hasLive companyId p.id (monthIndex d) }
  if !p.isActive then { row with skippedReason := some .inactive }
  else if (mine.map (·.openExact)).sum ≤ 0 then { row with skippedReason := some .inCredit }
  else
    let sources := mine.filterMap (chargeSource s d settings)
    let sum := sourcesTotal sources
    let short := 0 < sum ∧ sum < settings.minimum
    let charge := if short then settings.minimum else sum
    let credits := -((mine.filter fun it => it.openAmount < 0).map (·.openAmount)).sum
    let hasOpenCredits := if 0 < credits then some credits else none
    { row with
      charge := charge, sources := sources
      minimumAdjustment := if short then some (settings.minimum - sum) else none
      hasOpenCredits := hasOpenCredits
      ticked := 0 < charge && hasOpenCredits.isNone && !row.alreadyAssessed }

/-- The people of a company, each with a row. -/
def computeRows (companyId : Id) (items : List OpenItem) (people : List Person) : List ChargeRow :=
  (people.filter fun p => p.companyId = none || p.companyId = some companyId).map
    (chargeRow s d settings companyId items)

end Rows

/-- A call of `assess`, and what it reads: the clients it names with the charges it expects of them, the
open items and the people of the clients, the settings, today, and whether the ledger takes what it
posts. The items are grouped by client and transaction. -/
structure AssessCall where
  companyId : Option Id
  assessmentDate : Day
  contacts : List (Id × Dec)
  items : List OpenItem
  people : List Person
  settings : FinanceChargeSettings
  now : Day
  accountsReceivable : Id
  dateOpen : Bool
  accepted : Bool
  grouped : (items.map fun it => (it.contactId, it.txnId)).Nodup

section Assess

variable (c : AssessCall)

def AssessCall.period : ℤ := monthIndex c.assessmentDate

/-- A receivable for the charge, and its sources and what is missing to the minimum to the income
account. -/
def invoiceLines (income : Id) (row : ChargeRow) : List InvoiceLine :=
  { accountId := c.accountsReceivable, debit := row.charge, credit := 0 } ::
    (row.sources.map fun x => { accountId := income, debit := 0, credit := x.amount }) ++
      (row.minimumAdjustment.toList.map fun a => { accountId := income, debit := 0, credit := a })

/-- The invoice of a charge, its assessment and its sources. A live assessment of the client for the
month is there once. -/
def postCharge (companyId income : Id) (s : Charges) (row : ChargeRow) : Except FinanceChargeError Charges :=
  if row.charge ≤ 0 then .ok s
  else if !c.accepted then .error .ledger
  else if s.hasLive companyId row.contactId c.period then .error (.assessed (c.contacts.map (·.1)))
  else .ok {
    assessments := s.assessments ++
      [{ companyId := companyId, contactId := row.contactId, period := c.period
         assessmentDate := c.assessmentDate, invoiceId := s.nextId
         sources := row.sources.map fun x => { x with throughDate := c.assessmentDate } }]
    invoices := s.invoices ++
      [{ id := s.nextId, contactId := row.contactId, companyId := companyId
         txnDate := c.assessmentDate, dueDate := c.assessmentDate, total := row.charge
         lines := invoiceLines c income row, minimum := c.settings.minimum }]
    nextId := s.nextId + 1 }

def assessFinanceCharges (s : Charges) : Except FinanceChargeError Charges := do
  let some companyId := c.companyId | .error .companyRequired
  if MAX_ASSESS_CONTACTS < c.contacts.length then .error .tooManyContacts
  else if monthIndex (c.now + 1) < c.period then .error .dateInFuture
  else
    match c.settings.annualRate, c.settings.incomeAccountId with
    | some _, some income =>
      if !c.dateOpen then .error .lockDate
      else
        let rows := computeRows s c.assessmentDate c.settings companyId c.items c.people
        let ids := (c.contacts.map (·.1)).eraseDups
        let rowOf (id : Id) := rows.find? fun row => row.contactId = id
        let already := ids.filter fun id => (rowOf id).any (·.alreadyAssessed)
        if ids.any fun id => (rowOf id).isNone then .error .customerNotFound
        else if already ≠ [] then .error (.assessed already)
        else
          let charged := c.contacts.filterMap fun x => (rowOf x.1).map fun row => (row, x.2)
          match charged.find? fun x => x.1.charge ≠ x.2 with
          | some x => .error (.changed x.1.contactId x.1.charge)
          | none => charged.foldlM (fun s x => postCharge c companyId income s x.1) s
    | _, _ => .error .notSetUp

/-- Voiding a finance-charge invoice frees the month and the days of its assessment. -/
def voidFinanceCharge (invoiceId : ℕ) (s : Charges) : Charges :=
  { s with
    assessments := s.assessments.map fun a => if a.invoiceId = invoiceId then { a with voided := true } else a
    invoices := s.invoices.map fun i => if i.id = invoiceId then { i with isVoid := true } else i }

end Assess

inductive ChargeAction
  | assess (c : AssessCall)
  | void (invoiceId : ℕ)

/-- A call that throws leaves everything as it was. -/
def chargeStep (s : Charges) : ChargeAction → Charges
  | .assess c => (assessFinanceCharges c s).toOption.getD s
  | .void invoiceId => voidFinanceCharge invoiceId s

def chargeRun (s : Charges) (actions : List ChargeAction) : Charges := actions.foldl chargeStep s

end FinanceCharges

end MyBooks
