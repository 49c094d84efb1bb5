import MyBooks.Books
import MyBooks.Result
import Mathlib.Data.List.Sort

/-!
# The receivables

Invoices, payments, credit memos, bounces and refunds of customers, and the rows that apply payments
and credits to invoices. What a row settles is kept three times: on the row, in the invoice's amount
paid and balance, and in what is left of the credit. Here are the tables, what is read from them, and
the checks a payment's body goes through before anything is written.
-/

namespace MyBooks

inductive InvoiceStatus where
  | draft | sent | viewed | partPaid | paid | void
  deriving DecidableEq, Repr

/-- A journal line of a document. Its name is the document's where it has none of its own. -/
structure ArLine where
  accountId : Id
  debit : Dec
  credit : Dec
  contactId : Option Id
  deriving DecidableEq, Repr

/-- A transaction, without the columns that move with its applications. -/
structure ArDoc where
  id : Id
  txnType : TxnType
  status : TxnStatus := .posted
  companyId : Option Id
  contactId : Option Id
  txnDate : String
  total : Dec
  paymentMethod : Option String := none
  /-- A retainer: the whole amount is held, and drawn on later. -/
  holdsDeposit : Bool := false
  /-- The held deposit a payment draws on. -/
  fromDepositId : Option Id := none
  /-- The payment a bounce takes back, or a draw was made inside. -/
  sourceTxnId : Option Id := none
  /-- The credit a refund pays out. -/
  sourcePaymentId : Option Id := none
  salesTaxSsuta : Bool := false
  lines : List ArLine
  deriving DecidableEq, Repr

structure ArTxn extends ArDoc where
  amountPaid : Dec := 0
  balanceDue : Dec := 0
  invoiceStatus : Option InvoiceStatus := none
  viewed : Bool := false
  sent : Bool := false
  deriving DecidableEq, Repr

/-- An application of a payment or credit to an invoice. -/
structure AppRow where
  id : Id
  paymentId : Id
  invoiceId : Id
  amount : Dec
  writeOffAmount : Dec
  writeOffAccountId : Option Id
  discountAmount : Dec
  discountAccountId : Option Id
  /-- The date a credit was applied later; none for a payment's own rows. -/
  appliedDate : Option String
  /-- The payment a credit was applied inside. -/
  appliedInTxnId : Option Id
  voided : Bool
  reversedByTxnId : Option Id
  deriving DecidableEq, Repr

inductive TaxRowKind where
  | discount | badDebt
  deriving DecidableEq, Repr

/-- Sales tax that a row's discount or write-off gave back, signed by its effect on what is owed. -/
structure TaxRow where
  transactionId : Id
  applicationId : Id
  kind : TaxRowKind
  tax : Dec
  deriving DecidableEq, Repr

/-- The ids the database gives out, no two the same. -/
structure Uuids where
  gen : ℕ → Id
  inj : Function.Injective gen

structure Receivables where
  txns : List ArTxn
  rows : List AppRow
  taxRows : List TaxRow
  uuids : Uuids
  issued : ℕ

def AppRow.live (r : AppRow) : Bool := r.voided = false ∧ r.reversedByTxnId = none

/-- What a row takes off its invoice: cash or credit, discount and write-off. -/
def AppRow.settledBy (r : AppRow) : Dec := r.amount + r.discountAmount + r.writeOffAmount

section Accounts

structure LedgerAccount extends Account where
  isActive : Bool
  companyId : Option Id
  deriving DecidableEq, Repr

/-- The accounts, and which of them a system tag names. -/
structure Chart where
  accounts : Id → Option LedgerAccount
  system : SystemTag → Option Id
  tagged : ∀ tag a, system tag = some a → ∃ acct, accounts a = some acct ∧ acct.systemTag = some tag

def Chart.isAr (chart : Chart) (a : Id) : Bool :=
  (chart.accounts a).any fun acct => acct.systemTag = some .accountsReceivable

end Accounts

inductive PayError where
  | wholeCents (field : String)
  | tooManyApplications
  | invoiceTwice (invoiceId : Id)
  | applicationsExceedAmount (applied amount : Dec)
  | amountRequired
  | depositAccountInvalid (accountId : Id)
  | settleAccountRequired (code : String)
  | settleAccountInvalid (code : String) (accountId : Id)
  | systemAccountMissing
  | creditNotFound
  | applyDateBeforeSource (sourceId : Id) (sourceDate : String)
  | creditNotForCustomer (sourceId : Id)
  | paymentBounced (paymentId : Id)
  | creditNotAvailable (held : Bool) (sourceId : Id) (remaining : Dec)
  | invoiceNotFound (invoiceId : Id)
  | invoiceNotForCustomer (invoiceId : Id)
  | balanceChanged (invoiceId : Id) (balanceDue balanceDueExact : Dec)
  | overapplied (invoiceId : Id) (total balanceDue : Dec)
  | depositWithApplications
  | notFound
  | isVoid
  | notAllowed
  | scopeChanged (paymentId : Id)
  | depositApplied (paymentId : Id)
  | paymentRefunded (paymentId : Id)
  | creditRefunded (refundIds : List Id)
  | appliedFromDeposit (paymentId : Id) (depositId : Id)
  | applicationHasAdjustments (invoiceId : Id)
  | bounceDateInvalid (paymentDate : String)
  | noMoneyReceived (paymentId : Id)
  | feeAccountRequired
  | feeBankRequired
  | feeAccountInvalid (accountId : Id)
  | creditInUse (inUse : Dec)
  | sourceDateAfterUse (sourceId : Id) (firstUsed : String)
  | invoiceVoided (invoiceId : Id)
  | creditSourceChanged (invoiceId : Id)
  | invoiceHasPayments
  | creditMemoTotalNotPositive (total : Dec)
  | refundDateBeforeSource (sourceId : Id) (sourceDate : String)
  | allocationOutOfRange
  | nested
  /-- A check of another service. -/
  | refused (code : String)
  deriving DecidableEq, Repr

def PayError.code : PayError → Option String
  | .wholeCents _ | .invoiceTwice _ | .notAllowed => some "VALIDATION_ERROR"
  | .tooManyApplications => some "TOO_MANY_APPLICATIONS"
  | .applicationsExceedAmount _ _ => some "APPLICATIONS_EXCEED_AMOUNT"
  | .amountRequired => some "AMOUNT_REQUIRED"
  | .depositAccountInvalid _ => some "DEPOSIT_ACCOUNT_INVALID"
  | .settleAccountRequired code | .settleAccountInvalid code _ | .refused code => some code
  | .applyDateBeforeSource _ _ => some "APPLY_DATE_BEFORE_SOURCE"
  | .creditNotForCustomer _ => some "CREDIT_NOT_FOR_CUSTOMER"
  | .paymentBounced _ => some "PAYMENT_BOUNCED"
  | .creditNotAvailable held _ _ =>
    some (if held then "DEPOSIT_NOT_AVAILABLE" else "CREDIT_NOT_AVAILABLE")
  | .invoiceNotForCustomer _ => some "INVOICE_NOT_FOR_CUSTOMER"
  | .balanceChanged _ _ _ => some "INVOICE_BALANCE_CHANGED"
  | .overapplied _ _ _ => some "OVERAPPLIED"
  | .depositWithApplications => some "DEPOSIT_WITH_APPLICATIONS"
  | .scopeChanged _ => some "STALE"
  | .depositApplied _ => some "DEPOSIT_APPLIED"
  | .paymentRefunded _ => some "PAYMENT_REFUNDED"
  | .creditRefunded _ => some "CREDIT_REFUNDED"
  | .appliedFromDeposit _ _ => some "APPLIED_FROM_DEPOSIT"
  | .applicationHasAdjustments _ => some "APPLICATION_HAS_ADJUSTMENTS"
  | .bounceDateInvalid _ => some "BOUNCE_DATE_INVALID"
  | .noMoneyReceived _ => some "NO_MONEY_RECEIVED"
  | .feeAccountRequired => some "FEE_ACCOUNT_REQUIRED"
  | .feeBankRequired => some "FEE_BANK_REQUIRED"
  | .feeAccountInvalid _ => some "FEE_ACCOUNT_INVALID"
  | .creditInUse _ => some "CREDIT_IN_USE"
  | .sourceDateAfterUse _ _ => some "SOURCE_DATE_AFTER_USE"
  | .invoiceVoided _ => some "INVOICE_VOIDED"
  | .creditSourceChanged _ => some "CREDIT_SOURCE_CHANGED"
  | .invoiceHasPayments => some "INVOICE_HAS_PAYMENTS"
  | .creditMemoTotalNotPositive _ => some "CREDIT_MEMO_TOTAL_NOT_POSITIVE"
  | .refundDateBeforeSource _ _ => some "REFUND_DATE_BEFORE_SOURCE"
  | .creditNotFound | .invoiceNotFound _ | .notFound | .isVoid | .systemAccountMissing
  | .allocationOutOfRange | .nested => none

/-- Stops with `e` unless `p` holds. -/
def ensure (p : Prop) [Decidable p] (e : PayError) : Except PayError Unit :=
  if p then .ok () else .error e

@[simp] theorem ensure_ok {p : Prop} [Decidable p] {e : PayError} {u : Unit} :
    ensure p e = .ok u ↔ p := by
  unfold ensure
  split_ifs with h <;> simp [h]

/-- The row belongs to another company than the request's. -/
def inOtherCompany (rowCompany request : Option Id) : Bool :=
  rowCompany.isSome ∧ request.isSome ∧ rowCompany ≠ request

section Reads

variable (s : Receivables)

def Receivables.docs : List ArDoc := s.txns.map ArTxn.toArDoc

def Receivables.txn? (i : Id) : Option ArTxn := s.txns.find? fun t => t.id = i

def Receivables.doc? (i : Id) : Option ArDoc := s.docs.find? fun d => d.id = i

/-- By invoice, then by id. -/
def AppRow.before (a b : AppRow) : Prop :=
  a.invoiceId < b.invoiceId ∨ (a.invoiceId = b.invoiceId ∧ a.id ≤ b.id)

instance : DecidableRel AppRow.before := fun a b =>
  inferInstanceAs (Decidable (a.invoiceId < b.invoiceId ∨ (a.invoiceId = b.invoiceId ∧ a.id ≤ b.id)))

/-- The live rows of a payment: its own applications and its credit applied later. -/
def liveApplications (paymentId : Id) : List AppRow :=
  (s.rows.filter fun r => r.paymentId = paymentId ∧ r.live).insertionSort AppRow.before

/-- The live credit rows applied inside a payment. -/
def creditsAppliedIn (paymentId : Id) : List AppRow :=
  (s.rows.filter fun r => r.appliedInTxnId = some paymentId ∧ r.live).insertionSort AppRow.before

def ArDoc.refunds (d : ArDoc) (paymentId : Id) : Bool :=
  d.sourcePaymentId = some paymentId ∧ d.txnType = .customerRefund ∧ d.status = .posted

/-- The posted refunds drawn on a payment's credit. -/
def liveRefundTotal (paymentId : Id) : Dec :=
  ((s.docs.filter fun d => d.refunds paymentId).map ArDoc.total).sum

def ArDoc.bounces (d : ArDoc) (paymentId : Id) : Bool :=
  d.sourceTxnId = some paymentId ∧ d.txnType = .returnedPayment ∧ d.status = .posted

/-- The posted returned payment of a payment, if one is live. -/
def liveBounce (paymentId : Id) : Option ArDoc := s.docs.find? fun d => d.bounces paymentId

/-- The posted draws on a held deposit. -/
def liveDraws (depositId : Id) : List ArDoc :=
  s.docs.filter fun d => d.fromDepositId = some depositId ∧ d.status = .posted

/-- What is left of a held deposit. -/
def depositRemaining (p : ArDoc) : Dec :=
  if p.holdsDeposit = false ∨ p.status ≠ .posted ∨ (liveBounce s p.id).isSome then 0
  else
    let drawn := ((liveDraws s p.id).map ArDoc.total).sum
    max (p.total - drawn - liveRefundTotal s p.id) 0

/-- What is left of a payment's or memo's credit. -/
def creditRemaining (p : ArDoc) : Dec :=
  if p.status ≠ .posted ∨ (liveBounce s p.id).isSome then 0
  else if p.holdsDeposit then depositRemaining s p
  else
    let applied := ((liveApplications s p.id).map AppRow.amount).sum
    max (p.total - applied - liveRefundTotal s p.id) 0

end Reads

/-- The cent balance a payment may still take. -/
def payableCents (inv : ArTxn) : Dec :=
  if inv.status ≠ .posted ∨ inv.invoiceStatus = some .void ∨ inv.invoiceStatus = some .paid then 0
  else max (round2 inv.balanceDue) 0

section Body

/-- Whole cents, for direct service callers. -/
def wholeCents (value : Dec) (field : String) : Except PayError Dec :=
  if value < 0 ∨ value ≠ round2 value then .error (.wholeCents field) else .ok value

structure ReceiveApplication where
  invoiceId : Id
  amount : Dec
  expectedBalanceDue : Option Dec
  discountAmount : Option Dec
  writeOffAmount : Option Dec
  deriving DecidableEq, Repr

structure ReceiveCreditApplication where
  sourcePaymentId : Id
  invoiceId : Id
  amount : Dec
  expectedBalanceDue : Option Dec
  deriving DecidableEq, Repr

structure ReceivePaymentInput where
  customerId : Id
  date : String
  amount : Dec
  depositTo : Id
  paymentMethod : Option String
  applications : List ReceiveApplication
  writeOffAccountId : Option Id
  discountAccountId : Option Id
  creditApplications : Option (List ReceiveCreditApplication)
  holdAsDeposit : Bool
  deriving DecidableEq, Repr

structure ParsedApp where
  invoiceId : Id
  amount : Dec
  discount : Dec
  writeOff : Dec
  expectedBalanceDue : Option Dec
  deriving DecidableEq, Repr

structure ParsedCredit where
  sourcePaymentId : Id
  invoiceId : Id
  amount : Dec
  expectedBalanceDue : Option Dec
  deriving DecidableEq, Repr

structure Parsed where
  amount : Dec
  apps : List ParsedApp
  credits : List ParsedCredit
  deriving DecidableEq, Repr

def Parsed.cash (p : Parsed) : Dec := (p.apps.map (·.amount)).sum
def Parsed.discounts (p : Parsed) : Dec := (p.apps.map (·.discount)).sum
def Parsed.writeOffs (p : Parsed) : Dec := (p.apps.map (·.writeOff)).sum

def MAX_APPLICATIONS : ℕ := 1000

/-- The rows of a body, none of whose invoices may be one of `seen`. -/
def parseApps (seen : List Id) : List ReceiveApplication → Except PayError (List ParsedApp)
  | [] => .ok []
  | a :: as =>
    if a.invoiceId ∈ seen then .error (.invoiceTwice a.invoiceId)
    else do
      let amount ← wholeCents a.amount "applications[].amount"
      let discount ← wholeCents (a.discountAmount.getD 0) "applications[].discountAmount"
      let writeOff ← wholeCents (a.writeOffAmount.getD 0) "applications[].writeOffAmount"
      let rest ← parseApps (a.invoiceId :: seen) as
      return ⟨a.invoiceId, amount, discount, writeOff, a.expectedBalanceDue⟩ :: rest

def parseCredits : List ReceiveCreditApplication → Except PayError (List ParsedCredit)
  | [] => .ok []
  | c :: cs => do
    let amount ← wholeCents c.amount "creditApplications[].amount"
    let rest ← parseCredits cs
    return ⟨c.sourcePaymentId, c.invoiceId, amount, c.expectedBalanceDue⟩ :: rest

/-- The amounts of a receive or edit body, checked without the database. -/
def parseSettlement (input : ReceivePaymentInput) : Except PayError Parsed := do
  let amount ← wholeCents input.amount "amount"
  let rawCredits := input.creditApplications.getD []
  if input.applications.length + rawCredits.length > MAX_APPLICATIONS then
    .error .tooManyApplications
  else
    let apps ← parseApps [] input.applications
    let credits ← parseCredits rawCredits
    let parsed : Parsed := ⟨amount, apps, credits⟩
    if amount < parsed.cash then .error (.applicationsExceedAmount parsed.cash amount)
    else if ¬0 < amount ∧ ¬0 < parsed.discounts ∧ ¬0 < parsed.writeOffs then
      .error .amountRequired
    else .ok parsed

end Body

section Checks

variable (s : Receivables)

/-- A credit source is a customer payment or a credit memo. -/
def TxnType.isCreditSource (t : TxnType) : Bool := t = .customerPayment ∨ t = .creditMemo

/-- A credit is never used before its own date. -/
def assertApplyDate (src : ArDoc) (date : String) : Except PayError Unit :=
  ensure (src.txnDate ≤ date) (.applyDateBeforeSource src.id src.txnDate)

/-- One credit source of a payment: `total` of it is wanted. -/
def validateSource (customerId : Id) (companyId : Option Id) (date : String) (id : Id)
    (total : Dec) : Except PayError Unit :=
  match s.doc? id with
  | none => .error .creditNotFound
  | some src => do
    ensure (src.txnType.isCreditSource ∧ src.status ≠ .deleted ∧
      inOtherCompany src.companyId companyId = false) .creditNotFound
    assertApplyDate src date
    ensure (src.contactId = some customerId) (.creditNotForCustomer id)
    ensure (liveBounce s id = none) (.paymentBounced id)
    ensure (src.fromDepositId = none) .creditNotFound
    ensure (total ≤ creditRemaining s src)
      (.creditNotAvailable src.holdsDeposit id (creditRemaining s src))

/-- What the credit rows want of a source. -/
def wanted (credits : List ParsedCredit) (id : Id) : Dec :=
  ((credits.filter fun c => c.sourcePaymentId = id).map (·.amount)).sum

def validateSources (credits : List ParsedCredit) (customerId : Id) (companyId : Option Id)
    (date : String) : Except PayError Unit :=
  (credits.map (·.sourcePaymentId)).eraseDups.forM fun id =>
    validateSource s customerId companyId date id (wanted credits id)

structure ValidatedApplication where
  inv : ArTxn
  amount : Dec
  discount : Dec
  writeOff : Dec

structure ValidatedCredit where
  sourcePaymentId : Id
  inv : ArTxn
  amount : Dec

/-- One invoice of this client and company, its stored balance as expected. -/
def checkInvoice (invoiceId : Id) (expected : Option Dec) (customerId : Id)
    (companyId : Option Id) : Except PayError ArTxn :=
  match s.txn? invoiceId with
  | none => .error (.invoiceNotFound invoiceId)
  | some inv => do
    ensure (inv.txnType = .invoice ∧ inv.status ≠ .deleted ∧
      inOtherCompany inv.companyId companyId = false) (.invoiceNotFound invoiceId)
    ensure (inv.contactId = some customerId) (.invoiceNotForCustomer invoiceId)
    ensure (∀ e ∈ expected, e = inv.balanceDue)
      (.balanceChanged invoiceId (round2 inv.balanceDue) inv.balanceDue)
    return inv

def checkApps (customerId : Id) (companyId : Option Id) :
    List ParsedApp → Except PayError (List ValidatedApplication)
  | [] => .ok []
  | a :: as => do
    let inv ← checkInvoice s a.invoiceId a.expectedBalanceDue customerId companyId
    let rest ← checkApps customerId companyId as
    return if 0 < a.amount + a.discount + a.writeOff then
        ⟨inv, a.amount, a.discount, a.writeOff⟩ :: rest
      else rest

def checkCredits (customerId : Id) (companyId : Option Id) :
    List ParsedCredit → Except PayError (List ValidatedCredit)
  | [] => .ok []
  | c :: cs => do
    let inv ← checkInvoice s c.invoiceId c.expectedBalanceDue customerId companyId
    let rest ← checkCredits customerId companyId cs
    return if 0 < c.amount then ⟨c.sourcePaymentId, inv, c.amount⟩ :: rest else rest

/-- What the rows of a body take off an invoice. -/
def Parsed.settled (p : Parsed) (invoiceId : Id) : Dec :=
  ((p.apps.filter fun a => a.invoiceId = invoiceId).map
    fun a => a.amount + a.discount + a.writeOff).sum +
  ((p.credits.filter fun c => c.invoiceId = invoiceId).map (·.amount)).sum

def Parsed.invoiceIds (p : Parsed) : List Id :=
  (p.apps.map (·.invoiceId) ++ p.credits.map (·.invoiceId)).eraseDups

/-- The body may take no more off an invoice than its cent balance. -/
def checkCap (parsed : Parsed) (invoiceId : Id) : Except PayError Unit :=
  match s.txn? invoiceId with
  | none => .error (.invoiceNotFound invoiceId)
  | some inv =>
    ensure (parsed.settled invoiceId ≤ payableCents inv)
      (.overapplied invoiceId (parsed.settled invoiceId) (payableCents inv))

structure Validated where
  apps : List ValidatedApplication
  credits : List ValidatedCredit

/-- Applications and credits against the invoices, to the cent. -/
def validateInvoices (parsed : Parsed) (customerId : Id) (companyId : Option Id) :
    Except PayError Validated := do
  let apps ← checkApps s customerId companyId parsed.apps
  let credits ← checkCredits s customerId companyId parsed.credits
  parsed.invoiceIds.forM (checkCap s parsed)
  return ⟨apps, credits⟩

end Checks

end MyBooks
