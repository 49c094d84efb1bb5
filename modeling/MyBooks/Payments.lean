import MyBooks.SsutaShares

/-!
# Payments and credits of customers

`receivePayment`, `updatePayment`, `applyCredit`, `applyCreditMemo`, `unapplyPayment`,
`unapplyCreditMemo`, `bouncePayment` and the voids, each on the whole store, and the postings of
invoices, credit memos and refunds they work on. An operation writes in the order of the source: the
ledger's document, the application rows, and each row's share of its invoice's amount paid. What
other services check first can only refuse (`PaymentFacts.refusal`).
-/

namespace MyBooks

structure SettleSettings where
  writeOffAccountId : Option Id
  salesDiscountAccountId : Option Id

/-- What a call finds in other tables. -/
structure PaymentFacts where
  settings : SettleSettings
  /-- The company gives sales tax back on discounts and write-offs. -/
  ssutaOn : Bool
  taxItems : Id → List InvoiceTaxItem
  /-- The company tax rows of a document of a company are kept under. -/
  rowCompany : Option Id → Option Id
  customerDeposits : Id
  refusal : Option String

def PaymentFacts.refuse (facts : PaymentFacts) : Except PayError Unit :=
  match facts.refusal with
  | none => .ok ()
  | some code => .error (.refused code)

section Store

variable (s : Receivables)

def Receivables.nextId : Id := s.uuids.gen s.issued

def Receivables.addTxn (t : ArTxn) : Receivables :=
  { s with txns := s.txns ++ [t], issued := s.issued + 1 }

def Receivables.addRow (r : AppRow) : Receivables :=
  { s with rows := s.rows ++ [r], issued := s.issued + 1 }

def Receivables.setTxn (i : Id) (f : ArTxn → ArTxn) : Receivables :=
  { s with txns := s.txns.map fun t => if t.id = i then f t else t }

end Store

theorem round4_of_cents {x : Dec} (h : Cents x) : round4 x = x :=
  toPlaces_of_places (h.mono (by norm_num))

/-- An invoice whose amount paid moves by `delta`, with the status that follows from it. -/
def ArTxn.movePaid (inv : ArTxn) (delta : Dec) : ArTxn :=
  let newPaid := inv.amountPaid + delta
  let newBalance := inv.total - newPaid
  { inv with
    amountPaid := round4 newPaid
    balanceDue := round4 newBalance
    invoiceStatus := some <|
      if ¬0 < round2 (round4 newBalance) then .paid
      else if 0 < newPaid then .partPaid
      else if inv.viewed then .viewed
      else if inv.sent then .sent
      else .draft }

def moveInvoicePaid (s : Receivables) (invoiceId : Id) (delta : Dec) : Receivables :=
  s.setTxn invoiceId (·.movePaid delta)

/-- How a live row is retired: by a void, unapply or edit, or by a bounce. -/
inductive Retire where
  | voided
  | reversed (returnId : Id)

def AppRow.retire (r : AppRow) : Retire → AppRow
  | .voided => { r with voided := true }
  | .reversed returnId => { r with reversedByTxnId := some returnId }

/-- Retires a row while it is live. -/
def retireApplication (s : Receivables) (id : Id) (set : Retire) : Option Receivables :=
  if s.rows.any fun r => r.id = id ∧ r.live then
    some { s with rows := s.rows.map fun r => if r.id = id ∧ r.live then r.retire set else r }
  else none

/-- Retires a row and gives its invoice back what it settled; a row retired before is passed over. -/
def restore (set : Retire) (s : Receivables) (a : AppRow) : Receivables :=
  match retireApplication s a.id set with
  | none => s
  | some s' => moveInvoicePaid s' a.invoiceId (-a.settledBy)

/-- As `restore`, but a row retired before stops the operation. -/
def restoreOrStop (set : Retire) (paymentId : Id) (s : Receivables) (a : AppRow) :
    Except PayError Receivables :=
  match retireApplication s a.id set with
  | none => .error (.scopeChanged paymentId)
  | some s' => .ok (moveInvoicePaid s' a.invoiceId (-a.settledBy))

section Accounts

variable (chart : Chart)

def arAccountId : Except PayError Id :=
  match chart.system .accountsReceivable with
  | none => .error .systemAccountMissing
  | some a => .ok a

/-- The account a payment is deposited to: an asset of this company, no receivable. -/
def assertDepositAccount (accountId : Id) (companyId : Option Id) : Except PayError Unit :=
  ensure ((chart.accounts accountId).any fun acct =>
      inOtherCompany acct.companyId companyId = false ∧ acct.accountType = .asset ∧
      acct.systemTag ≠ some .accountsReceivable ∧ acct.systemTag ≠ some .customerDeposits ∧
      acct.detailType ≠ some .accountsReceivable ∧ acct.detailType ≠ some .accountsPayable)
    (.depositAccountInvalid accountId)

/-- The account of a write-off or a discount. -/
def assertSettleAccount (companyId : Option Id) (accountId depositTo : Id) (code : String) :
    Except PayError Unit :=
  ensure ((chart.accounts accountId).any fun acct =>
      inOtherCompany acct.companyId companyId = false ∧ acct.isActive ∧
      acct.systemTag ≠ some .accountsReceivable ∧ acct.systemTag ≠ some .accountsPayable ∧
      acct.systemTag ≠ some .paymentsClearing ∧ acct.systemTag ≠ some .customerDeposits ∧
      acct.detailType ≠ some .accountsReceivable ∧ acct.detailType ≠ some .accountsPayable ∧
      accountId ≠ depositTo)
    (.settleAccountInvalid code accountId)

structure SettleAccounts where
  writeOffAccountId : Option Id
  discountAccountId : Option Id

/-- The account a total of write-offs or discounts posts to; none is needed for nothing. -/
def resolveSettleAccount (companyId : Option Id) (depositTo : Id) (total : Dec)
    (requested setting : Option Id) (requiredCode invalidCode : String) :
    Except PayError (Option Id) :=
  if 0 < total then
    match requested.or setting with
    | none => .error (.settleAccountRequired requiredCode)
    | some a => do
      assertSettleAccount chart companyId a depositTo invalidCode
      return some a
  else .ok none

def resolveSettleAccounts (companyId : Option Id) (input : ReceivePaymentInput) (parsed : Parsed)
    (settings : SettleSettings) : Except PayError SettleAccounts := do
  let writeOff ← resolveSettleAccount chart companyId input.depositTo parsed.writeOffs
    input.writeOffAccountId settings.writeOffAccountId "WRITE_OFF_ACCOUNT_REQUIRED"
    "WRITE_OFF_ACCOUNT_INVALID"
  let discount ← resolveSettleAccount chart companyId input.depositTo parsed.discounts
    input.discountAccountId settings.salesDiscountAccountId "DISCOUNT_ACCOUNT_REQUIRED"
    "DISCOUNT_ACCOUNT_INVALID"
  return ⟨writeOff, discount⟩

end Accounts

section Shares

/-- The tax of a settlement's discounts and write-offs, and the account it goes back to. -/
structure SettlementTax where
  discountTax : Dec
  writeOffTax : Dec
  stp : Option Id

def noSettlementTax : SettlementTax := ⟨0, 0, none⟩

abbrev SharedApplication := ValidatedApplication × SettlementShares

def sharesOf (facts : PaymentFacts) (on : Bool) :
    List ValidatedApplication → Except PayError (List SharedApplication)
  | [] => .ok []
  | a :: as => do
    let shares ←
      if on ∧ (0 < a.discount ∨ 0 < a.writeOff) then
        settlementShares (facts.taxItems a.inv.id) a.inv.total a.inv.amountPaid a.amount a.discount
          a.writeOff
      else .ok []
    let rest ← sharesOf facts on as
    return (a, shares) :: rest

def attachShares (chart : Chart) (facts : PaymentFacts) (on : Bool)
    (apps : List ValidatedApplication) :
    Except PayError (List SharedApplication × SettlementTax) := do
  let shared ← sharesOf facts on apps
  let discountTax := (shared.map fun a => a.2.discountTax).sum
  let writeOffTax := (shared.map fun a => a.2.writeOffTax).sum
  if discountTax = 0 ∧ writeOffTax = 0 then return (shared, noSettlementTax)
  else
    match chart.system .salesTaxPayable with
    | none => .error .systemAccountMissing
    | some stp => return (shared, ⟨discountTax, writeOffTax, some stp⟩)

/-- A line where there is something to debit. -/
def debitLine (accountId : Option Id) (x : Dec) : List ArLine :=
  match accountId with
  | none => []
  | some a => if 0 < x then [⟨a, round4 x, 0, none⟩] else []

def stpLine (tax : SettlementTax) : List ArLine :=
  let stpDebit := tax.writeOffTax + tax.discountTax
  match tax.stp with
  | none => []
  | some stp =>
    if 0 < stpDebit then [⟨stp, round4 stpDebit, 0, none⟩]
    else if stpDebit < 0 then [⟨stp, 0, round4 (-stpDebit), none⟩]
    else []

/-- Dr the deposit account, the write-offs and the discounts less their tax, Cr A/R the sum. -/
def paymentLines (depositTo ar customerId : Id) (parsed : Parsed) (accounts : SettleAccounts)
    (tax : SettlementTax) : List ArLine :=
  debitLine (some depositTo) parsed.amount ++
  debitLine accounts.writeOffAccountId (parsed.writeOffs - tax.writeOffTax) ++
  debitLine accounts.discountAccountId (parsed.discounts - tax.discountTax) ++
  stpLine tax ++
  [⟨ar, 0, round4 (parsed.amount + parsed.writeOffs + parsed.discounts), some customerId⟩]

/-- The tax rows of one application: one for each item's discount, one for its write-off. -/
def shareTaxRows (paymentId applicationId : Id) (shares : SettlementShares) : List TaxRow :=
  shares.flatMap fun row =>
    (if row.discountTax = 0 then []
      else [⟨paymentId, applicationId, .discount, round4 (-row.discountTax)⟩]) ++
    (if row.writeOffTax = 0 then []
      else [⟨paymentId, applicationId, .badDebt, round4 (-row.writeOffTax)⟩])

def writeShareRows (s : Receivables) (facts : PaymentFacts) (companyId : Option Id)
    (paymentId applicationId : Id) (shares : SettlementShares) : Receivables :=
  if (facts.rowCompany companyId).isNone then s
  else { s with taxRows := s.taxRows ++ shareTaxRows paymentId applicationId shares }

def deleteShareRows (s : Receivables) (paymentId : Id) : Receivables :=
  { s with taxRows := s.taxRows.filter fun t => t.transactionId ≠ paymentId }

/-- The tax rows stored for an application on the payments `txnIds`. -/
def storedRows (s : Receivables) (txnIds : List Id) (applicationId : Id) : List TaxRow :=
  s.taxRows.filter fun t => t.applicationId = applicationId ∧ t.transactionId ∈ txnIds

/-- What the stored rows of a kind gave back. -/
def storedTax (s : Receivables) (txnIds : List Id) (applicationId : Id) (kind : TaxRowKind) : Dec :=
  (((storedRows s txnIds applicationId).filter fun t => t.kind = kind).map fun t => -t.tax).sum

end Shares

section Settle

/-- Writes one application of a payment's own. -/
def writeApplication (facts : PaymentFacts) (companyId : Option Id) (paymentId : Id)
    (accounts : SettleAccounts) (s : Receivables) (a : SharedApplication) : Receivables :=
  let rowId := s.nextId
  let s := s.addRow
    { id := rowId, paymentId := paymentId, invoiceId := a.1.inv.id, amount := round4 a.1.amount
      writeOffAmount := round4 a.1.writeOff
      writeOffAccountId := if 0 < a.1.writeOff then accounts.writeOffAccountId else none
      discountAmount := round4 a.1.discount
      discountAccountId := if 0 < a.1.discount then accounts.discountAccountId else none
      appliedDate := none, appliedInTxnId := none, voided := false, reversedByTxnId := none }
  let s := writeShareRows s facts (companyId.or a.1.inv.companyId) paymentId rowId a.2
  moveInvoicePaid s a.1.inv.id (a.1.amount + a.1.discount + a.1.writeOff)

/-- An application of credit: no discount and no write-off. -/
def creditRow (id paymentId invoiceId : Id) (amount : Dec) (appliedDate : Option String)
    (appliedInTxnId : Option Id) : AppRow :=
  { id := id, paymentId := paymentId, invoiceId := invoiceId, amount := round4 amount
    writeOffAmount := 0, writeOffAccountId := none, discountAmount := 0, discountAccountId := none
    appliedDate := appliedDate, appliedInTxnId := appliedInTxnId, voided := false
    reversedByTxnId := none }

/-- Applies credit of `paymentId` to an invoice. -/
def writeCredit (appliedDate : Option String) (appliedInTxnId : Option Id) (paymentId : Id)
    (s : Receivables) (c : Id × Dec) : Receivables :=
  moveInvoicePaid
    (s.addRow (creditRow s.nextId paymentId c.1 c.2 appliedDate appliedInTxnId)) c.1 c.2

/-- A draw on a held deposit: Dr Customer Deposits, Cr A/R, with its applications. -/
def postDraw (s : Receivables) (ar : Id) (facts : PaymentFacts) (companyId : Option Id)
    (deposit : ArDoc) (date : String) (rows : List (Id × Dec)) (insideOf : Option Id) :
    Receivables :=
  let total := round4 (rows.map Prod.snd).sum
  let drawId := s.nextId
  let s := s.addTxn
    { id := drawId, txnType := .customerPayment, companyId := companyId.or deposit.companyId
      contactId := deposit.contactId, txnDate := date, total := total
      fromDepositId := some deposit.id, sourceTxnId := insideOf
      lines := [⟨facts.customerDeposits, total, 0, none⟩, ⟨ar, 0, total, deposit.contactId⟩] }
  rows.foldl (writeCredit none none drawId) s

def Receivables.holds (s : Receivables) (id : Id) : Bool := (s.doc? id).any (·.holdsDeposit)

/-- The draws of a payment: one for each held deposit among its credits. -/
def drawAll (ar : Id) (facts : PaymentFacts) (companyId : Option Id) (date : String)
    (paymentId : Id) (credits : List ValidatedCredit) (s : Receivables) (depositId : Id) :
    Receivables :=
  match s.doc? depositId with
  | none => s
  | some deposit =>
    postDraw s ar facts companyId deposit date
      ((credits.filter fun c => c.sourcePaymentId = depositId).map fun c => (c.inv.id, c.amount))
      (some paymentId)

def writeSettlement (s : Receivables) (ar : Id) (facts : PaymentFacts) (companyId : Option Id)
    (paymentId : Id) (date : String) (apps : List SharedApplication)
    (credits : List ValidatedCredit) (accounts : SettleAccounts) : Receivables :=
  let depositIds := ((credits.map (·.sourcePaymentId)).filter s.holds).eraseDups
  let s' := depositIds.foldl (drawAll ar facts companyId date paymentId credits) s
  let s' := apps.foldl (writeApplication facts companyId paymentId accounts) s'
  (credits.filter fun c => s.holds c.sourcePaymentId = false).foldl
    (fun s' c => writeCredit (some date) (some paymentId) c.sourcePaymentId s' (c.inv.id, c.amount))
    s'

end Settle

section Receive

variable (chart : Chart) (s : Receivables)

/-- A hold: Dr the deposit account, Cr Customer Deposits; no applications or credits. -/
def receiveDeposit (input : ReceivePaymentInput) (parsed : Parsed) (companyId : Option Id)
    (facts : PaymentFacts) : Except PayError Receivables := do
  ensure (parsed.apps = [] ∧ parsed.credits = []) .depositWithApplications
  ensure (0 < parsed.amount) .amountRequired
  facts.refuse
  let amount := round4 parsed.amount
  return s.addTxn
    { id := s.nextId, txnType := .customerPayment, companyId := companyId
      contactId := some input.customerId, txnDate := input.date, total := amount
      paymentMethod := input.paymentMethod, holdsDeposit := true
      lines := [⟨input.depositTo, amount, 0, none⟩,
        ⟨facts.customerDeposits, 0, amount, some input.customerId⟩] }

def receivePayment (input : ReceivePaymentInput) (companyId : Option Id) (facts : PaymentFacts) :
    Except PayError Receivables := do
  let parsed ← parseSettlement input
  assertDepositAccount chart input.depositTo companyId
  if input.holdAsDeposit then receiveDeposit s input parsed companyId facts
  else
    let accounts ← resolveSettleAccounts chart companyId input parsed facts.settings
    let ar ← arAccountId chart
    validateSources s parsed.credits input.customerId companyId input.date
    let valid ← validateInvoices s parsed input.customerId companyId
    let (apps, tax) ← attachShares chart facts facts.ssutaOn valid.apps
    facts.refuse
    let paymentId := s.nextId
    let s := s.addTxn
      { id := paymentId, txnType := .customerPayment, companyId := companyId
        contactId := some input.customerId, txnDate := input.date, total := round4 parsed.amount
        paymentMethod := input.paymentMethod, salesTaxSsuta := facts.ssutaOn
        lines := paymentLines input.depositTo ar input.customerId parsed accounts tax }
    return writeSettlement s ar facts companyId paymentId input.date apps valid.credits accounts

end Receive

section Apply

variable (chart : Chart)

structure CreditApplication where
  invoiceId : Id
  /-- Without an amount the row takes what the credit and the invoice allow. -/
  amount : Option Dec
  expectedBalanceDue : Option Dec
  deriving DecidableEq, Repr

/-- The rows an application of credit writes: what each invoice takes, in the order sent. -/
def creditRows (s : Receivables) (source : ArDoc) (companyId : Option Id) :
    Dec → List Id → List CreditApplication → Except PayError (List (Id × Dec))
  | _, _, [] => .ok []
  | left, seen, a :: as =>
    if a.invoiceId ∈ seen then .error (.invoiceTwice a.invoiceId)
    else do
      let inv ← checkInvoice s a.invoiceId a.expectedBalanceDue (source.contactId.getD "") companyId
      let cap := payableCents inv
      let x ← match a.amount with
        | none => .ok (min left cap)
        | some amount => wholeCents amount "applications[].amount"
      ensure (x ≤ cap) (.overapplied a.invoiceId x cap)
      ensure (x ≤ left) (.creditNotAvailable source.holdsDeposit source.id left)
      if ¬0 < x then creditRows s source companyId left (a.invoiceId :: seen) as
      else
        let rest ← creditRows s source companyId (left - x) (a.invoiceId :: seen) as
        return (inv.id, x) :: rest

/-- Applies what is left of a source to invoices of its client. -/
def applyCreditInTx (s : Receivables) (source : ArDoc) (date : String)
    (applications : List CreditApplication) (companyId : Option Id) (withSource : Bool)
    (facts : PaymentFacts) : Except PayError Receivables := do
  ensure (applications.length ≤ MAX_APPLICATIONS) .tooManyApplications
  if withSource = false then
    assertApplyDate source date
    facts.refuse
  let rows ← creditRows s source companyId (creditRemaining s source) [] applications
  if source.holdsDeposit then
    if rows = [] then return s
    else
      let ar ← arAccountId chart
      return postDraw s ar facts companyId source date rows none
  else
    return rows.foldl (writeCredit (if withSource then none else some date) none source.id) s

/-- The document `id` of type `type`, of this company and posted. -/
def postedDoc (s : Receivables) (id : Id) (type : TxnType) (companyId : Option Id) :
    Except PayError ArDoc :=
  match s.doc? id with
  | none => .error .notFound
  | some d => do
    ensure (d.txnType = type ∧ d.status ≠ .deleted ∧ inOtherCompany d.companyId companyId = false)
      .notFound
    ensure (d.status = .posted) .isVoid
    return d

def applyCredit (s : Receivables) (paymentId : Id) (date : String)
    (applications : List CreditApplication) (companyId : Option Id) (facts : PaymentFacts) :
    Except PayError Receivables := do
  let payment ← postedDoc s paymentId .customerPayment companyId
  facts.refuse
  ensure (liveBounce s paymentId = none) (.paymentBounced paymentId)
  ensure (payment.fromDepositId = none) .notAllowed
  applyCreditInTx chart s payment date applications companyId false facts

def applyCreditMemo (s : Receivables) (memoId : Id) (date : String)
    (applications : List CreditApplication) (companyId : Option Id) (facts : PaymentFacts) :
    Except PayError Receivables := do
  let memo ← postedDoc s memoId .creditMemo companyId
  facts.refuse
  applyCreditInTx chart s memo date applications companyId false facts

/-- A row that took a discount or write-off stays: the payment keeps those ledger lines. -/
def assertNoAdjustments (app : AppRow) : Except PayError Unit :=
  ensure (¬0 < app.discountAmount ∧ ¬0 < app.writeOffAmount)
    (.applicationHasAdjustments app.invoiceId)

/-- Takes one invoice off a payment; the money stays a credit. -/
def unapplyPayment (s : Receivables) (paymentId invoiceId : Id) (companyId : Option Id)
    (facts : PaymentFacts) : Except PayError Receivables := do
  let payment ← postedDoc s paymentId .customerPayment companyId
  ensure (liveBounce s paymentId = none) (.paymentBounced paymentId)
  match payment.fromDepositId with
  | some depositId => .error (.appliedFromDeposit paymentId depositId)
  | none =>
    match (liveApplications s paymentId).find? fun a => a.invoiceId = invoiceId with
    | none => .error .notFound
    | some app =>
      assertNoAdjustments app
      facts.refuse
      restoreOrStop .voided paymentId s app

/-- Takes one invoice off a credit memo. -/
def unapplyCreditMemo (s : Receivables) (memoId invoiceId : Id) (companyId : Option Id)
    (facts : PaymentFacts) : Except PayError Receivables := do
  let _ ← postedDoc s memoId .creditMemo companyId
  match (liveApplications s memoId).find? fun a => a.invoiceId = invoiceId with
  | none => .error .notFound
  | some app =>
    facts.refuse
    restoreOrStop .voided memoId s app

end Apply

section Bounce

variable (chart : Chart)

/-- The account a payment was deposited to: its first asset debit that is no receivable. -/
def depositToOf (p : ArDoc) : Option Id :=
  (p.lines.find? fun l => 0 < l.debit ∧ (chart.accounts l.accountId).any fun acct =>
    acct.accountType = .asset ∧ acct.systemTag ≠ some .accountsReceivable).map (·.accountId)

def assertFeeAccount (accountId : Id) (companyId : Option Id) (forbidden : List Id) :
    Except PayError Unit :=
  ensure ((chart.accounts accountId).any fun acct =>
      inOtherCompany acct.companyId companyId = false ∧ acct.isActive ∧ accountId ∉ forbidden ∧
      acct.systemTag ≠ some .accountsReceivable ∧ acct.systemTag ≠ some .accountsPayable ∧
      acct.systemTag ≠ some .customerDeposits ∧ acct.systemTag ≠ some .paymentsClearing ∧
      acct.detailType ≠ some .accountsReceivable ∧ acct.detailType ≠ some .accountsPayable)
    (.feeAccountInvalid accountId)

structure BounceInput where
  date : String
  bankFeeAmount : Option Dec
  bankFeeAccountId : Option Id
  bankFeeBankAccountId : Option Id
  /-- The company's account for such fees. -/
  nsfBankFeeAccountId : Option Id

/-- The bank's fee, and the accounts it is debited and credited to. -/
structure BankFee where
  amount : Dec
  account : Id
  bank : Id

/-- The bank the fee was taken from: the one that holds the money, else the one sent. -/
def feeBank (held : Id) (companyId sent : Option Id) : Except PayError Id :=
  if chart.system .paymentsClearing ≠ some held then .ok held
  else
    match sent with
    | none => .error .feeBankRequired
    | some bank => do
      assertDepositAccount chart bank companyId
      return bank

def bounceFee (held : Id) (companyId : Option Id) (input : BounceInput) :
    Except PayError (Option BankFee) := do
  let fee ← wholeCents (input.bankFeeAmount.getD 0) "bankFeeAmount"
  if 0 < fee then
    match input.bankFeeAccountId.or input.nsfBankFeeAccountId with
    | none => .error .feeAccountRequired
    | some account => do
      let bank ← feeBank chart held companyId input.bankFeeBankAccountId
      assertFeeAccount chart account companyId [held, bank]
      return some ⟨fee, account, bank⟩
  else return none

/-- Discounts and write-offs come back to their accounts, less the tax stored for them. -/
def settleBack (s : Receivables) (txnIds : List Id) (a : AppRow) : List (Id × Dec) :=
  let discountTax := storedTax s txnIds a.id .discount
  let writeOffTax := storedTax s txnIds a.id .badDebt
  (if 0 < a.discountAmount then
      a.discountAccountId.toList.map fun acct => (acct, a.discountAmount - discountTax)
    else []) ++
  (if 0 < a.writeOffAmount then
      a.writeOffAccountId.toList.map fun acct => (acct, a.writeOffAmount - writeOffTax)
    else [])

/-- The tax that goes back to Sales Tax Payable. -/
def stpBack (s : Receivables) (txnIds : List Id) (apps : List AppRow) : Dec :=
  (apps.map fun a =>
    storedTax s txnIds a.id .discount + storedTax s txnIds a.id .badDebt).sum

/-- What a bounce gives back, account by account. -/
def backEntries (s : Receivables) (apps : List AppRow) : Except PayError (List (Id × Dec)) :=
  let txnIds := apps.map (·.paymentId)
  let back := apps.flatMap (settleBack s txnIds)
  if stpBack s txnIds apps = 0 then .ok back
  else
    match chart.system .salesTaxPayable with
    | none => .error .systemAccountMissing
    | some stp => .ok (back ++ [(stp, stpBack s txnIds apps)])

/-- One credit for each account that something other than nothing comes back to, by account. -/
def backLines (back : List (Id × Dec)) : List ArLine :=
  let accounts := ((back.filter fun e => e.2 ≠ 0).map Prod.fst).eraseDups
  (accounts.insertionSort (· ≤ ·)).map fun a =>
    ⟨a, 0, round4 ((back.filter fun e => e.1 = a).map Prod.snd).sum, none⟩

/-- The applications a bounce takes back: the payment's, or those of the draws on a held one. -/
def bouncedApps (s : Receivables) (payment : ArDoc) : List AppRow :=
  if payment.holdsDeposit then
    (liveDraws s payment.id).flatMap fun d => liveApplications s d.id
  else liveApplications s payment.id

def bounceLines (s : Receivables) (ar held : Id) (facts : PaymentFacts) (payment : ArDoc)
    (back : List (Id × Dec)) : List ArLine :=
  let amount := round4 payment.total
  if payment.holdsDeposit then
    let drawn := ((liveDraws s payment.id).map ArDoc.total).sum
    (if 0 < drawn then [⟨ar, round4 drawn, 0, payment.contactId⟩] else []) ++
    (if 0 < payment.total - drawn then
        [⟨facts.customerDeposits, round4 (payment.total - drawn), 0, none⟩]
      else []) ++
    [⟨held, 0, amount, none⟩]
  else
    [⟨ar, round4 (payment.total + (back.map Prod.snd).sum), 0, payment.contactId⟩,
      ⟨held, 0, amount, none⟩] ++ backLines back

/-- The rows of a bounce mirror those of what it takes back. -/
def writeMirrorRows (s : Receivables) (returnId : Id) (apps : List AppRow) : Receivables :=
  let txnIds := apps.map (·.paymentId)
  let rows := apps.flatMap fun a => storedRows s txnIds a.id
  { s with taxRows := s.taxRows ++
      rows.map fun t => { t with transactionId := returnId, tax := round4 (-t.tax) } }

def feeTxn (id : Id) (date : String) (returnId : Id) (companyId : Option Id) (fee : BankFee) :
    ArTxn :=
  { id := id, txnType := .expense, companyId := companyId, contactId := none, txnDate := date
    total := round4 fee.amount, sourceTxnId := some returnId
    lines := [⟨fee.account, round4 fee.amount, 0, none⟩, ⟨fee.bank, 0, round4 fee.amount, none⟩] }

/-- A payment's check bounces: one dated returned payment, which reopens what it settled. -/
def bouncePayment (s : Receivables) (paymentId : Id) (input : BounceInput) (companyId : Option Id)
    (facts : PaymentFacts) : Except PayError Receivables := do
  let payment ← postedDoc s paymentId .customerPayment companyId
  ensure (liveBounce s paymentId = none) (.paymentBounced paymentId)
  ensure (¬0 < liveRefundTotal s paymentId) (.paymentRefunded paymentId)
  ensure (payment.txnDate ≤ input.date) (.bounceDateInvalid payment.txnDate)
  match depositToOf chart payment with
  | none => .error (.noMoneyReceived paymentId)
  | some held =>
    let scope := companyId.or payment.companyId
    let fee ← bounceFee chart held scope input
    ensure (payment.fromDepositId = none) .notAllowed
    let apps := bouncedApps s payment
    let ar ← arAccountId chart
    facts.refuse
    let back ← backEntries chart s apps
    let returnId := s.nextId
    let s' := s.addTxn
      { id := returnId, txnType := .returnedPayment, companyId := scope
        contactId := payment.contactId, txnDate := input.date, total := round4 payment.total
        paymentMethod := payment.paymentMethod, sourceTxnId := some paymentId
        lines := bounceLines s ar held facts payment back }
    let s' ← apps.foldlM (restoreOrStop (.reversed returnId) paymentId) s'
    let s' := writeMirrorRows s' returnId apps
    return match fee with
      | none => s'
      | some fee => s'.addTxn (feeTxn s'.nextId input.date returnId scope fee)

/-- Puts one row back that the bounce reversed. -/
def reapplyRow (returnId : Id) (s : Receivables) (a : AppRow) : Except PayError Receivables :=
  match s.txn? a.invoiceId with
  | none => .error (.invoiceVoided a.invoiceId)
  | some inv => do
    ensure (inv.status = .posted) (.invoiceVoided a.invoiceId)
    ensure (∀ q ∈ a.appliedInTxnId, (s.doc? q).any fun d => d.status = .posted)
      (.creditSourceChanged a.invoiceId)
    ensure (a.settledBy ≤ payableCents inv)
      (.balanceChanged a.invoiceId (round2 inv.balanceDue) inv.balanceDue)
    let holds (r : AppRow) : Bool :=
      r.id = a.id ∧ r.reversedByTxnId = some returnId ∧ r.voided = false
    if s.rows.any holds then
      return moveInvoicePaid
        { s with rows := s.rows.map fun r => if holds r then { r with reversedByTxnId := none } else r }
        a.invoiceId a.settledBy
    else return s

/-- The bounce's part of its void: the rows it reversed are applied again. -/
def reapplyBounce (s : Receivables) (ret : ArDoc) : Except PayError Receivables :=
  ((s.rows.filter fun r => r.reversedByTxnId = some ret.id).insertionSort AppRow.before).foldlM
    (reapplyRow ret.id) s

end Bounce

section Void

/-- The payments a payment's own void takes with it: the draws made inside it. -/
def innerDraws (s : Receivables) (paymentId : Id) : List ArDoc :=
  s.docs.filter fun d => d.sourceTxnId = some paymentId ∧ d.txnType = .customerPayment ∧
    d.status = .posted

/-- An invoice with a live payment or credit applied can not be voided. -/
def assertInvoiceUnapplied (s : Receivables) (t : ArDoc) : Except PayError Unit :=
  ensure (t.txnType = .invoice → ∀ r ∈ s.rows, r.invoiceId = t.id → r.live →
    (s.doc? r.paymentId).any (fun p => p.status = .posted) = false) .invoiceHasPayments

/-- The payment's part of its void: its rows, and the credits applied inside it. -/
def releasePayment (voidInner : Receivables → Id → Except PayError Receivables) (s : Receivables)
    (payment : ArDoc) : Except PayError Receivables := do
  ensure (liveBounce s payment.id = none) (.paymentBounced payment.id)
  ensure (payment.holdsDeposit = false ∨ liveDraws s payment.id = []) (.depositApplied payment.id)
  ensure (∀ h ∈ payment.fromDepositId, liveBounce s h = none)
    (.paymentBounced (payment.fromDepositId.getD ""))
  let s ← (innerDraws s payment.id).foldlM (fun s d => voidInner s d.id) s
  ensure (¬0 < liveRefundTotal s payment.id) (.paymentRefunded payment.id)
  let apps := liveApplications s payment.id ++ creditsAppliedIn s payment.id
  return apps.foldl (restore .voided) s

/-- The memo's part of its void. -/
def releaseCreditMemo (s : Receivables) (memo : ArDoc) : Except PayError Receivables := do
  let refunds := s.docs.filter fun d => d.refunds memo.id
  ensure (refunds = []) (.creditRefunded (refunds.map ArDoc.id))
  return (liveApplications s memo.id).foldl (restore .voided) s

def ArLine.reversed (l : ArLine) : ArLine := { l with debit := l.credit, credit := l.debit }

def ArTxn.void (t : ArTxn) : ArTxn :=
  { t with
    status := .void
    invoiceStatus := if t.txnType = .invoice then some .void else t.invoiceStatus
    lines := t.lines ++ t.lines.map ArLine.reversed }

/-- `voidTransaction`, nested at most `n` documents deep. -/
def voidAt (companyId : Option Id) (refusal : Except PayError Unit) :
    ℕ → Receivables → Id → Except PayError Receivables
  | 0, _, _ => .error .nested
  | n + 1, s, id =>
    match s.doc? id with
    | none => .error .notFound
    | some t => do
      ensure (t.status ≠ .deleted ∧ inOtherCompany t.companyId companyId = false) .notFound
      ensure (t.status ≠ .void) .isVoid
      assertInvoiceUnapplied s t
      refusal
      let s ← match t.txnType with
        | .customerPayment => releasePayment (voidAt none refusal n) s t
        | .creditMemo => releaseCreditMemo s t
        | .returnedPayment => reapplyBounce s t
        | _ => .ok s
      return s.setTxn id ArTxn.void

/-- Voids a document and what it takes with it; no chain of documents is longer than the store. -/
def Receivables.voidTransaction (s : Receivables) (id : Id) (companyId : Option Id)
    (facts : PaymentFacts) : Except PayError Receivables :=
  voidAt companyId facts.refuse s.txns.length s id

end Void

section Edit

variable (chart : Chart)

/-- The credits applied inside a payment as its record lists them, the draws made inside included:
source, invoice and amount. -/
def creditsInsideRecord (s : Receivables) (paymentId : Id) : List (Id × Id × Dec) :=
  (s.rows.filter fun r => r.appliedInTxnId = some paymentId ∧ r.live).map
    (fun r => (r.paymentId, r.invoiceId, r.amount)) ++
  ((innerDraws s paymentId).filter fun d => d.fromDepositId.isSome).flatMap fun d =>
    (s.rows.filter fun r => r.paymentId = d.id ∧ r.live).map
      fun r => (d.fromDepositId.getD "", r.invoiceId, r.amount)

/-- An own row that the body sends again. -/
def sameApp (input : ReceivePaymentInput) (o : AppRow) (a : ParsedApp) : Bool :=
  o.invoiceId = a.invoiceId ∧ o.amount = a.amount ∧ o.discountAmount = a.discount ∧
  o.writeOffAmount = a.writeOff ∧
  (¬0 < a.writeOff ∨ input.writeOffAccountId.or o.writeOffAccountId = o.writeOffAccountId) ∧
  (¬0 < a.discount ∨ input.discountAccountId.or o.discountAccountId = o.discountAccountId)

/-- Everything but the memo and the reference number is as saved. -/
def unchanged (s : Receivables) (payment : ArDoc) (input : ReceivePaymentInput) (parsed : Parsed)
    (own : List AppRow) : Bool :=
  let newApps := parsed.apps.filter fun a => 0 < a.amount + a.discount + a.writeOff
  let insideNow := creditsInsideRecord s payment.id
  let newCredits := parsed.credits.filter fun c => 0 < c.amount
  payment.total = parsed.amount ∧ depositToOf chart payment = some input.depositTo ∧
  (own.length = newApps.length ∧ ∀ a ∈ newApps, ∃ o ∈ own, sameApp input o a) ∧
  (insideNow.length = newCredits.length ∧
    ∀ c ∈ newCredits, (c.sourcePaymentId, c.invoiceId, c.amount) ∈ insideNow) ∧
  payment.txnDate = input.date ∧ payment.contactId = some input.customerId ∧
  input.paymentMethod.or payment.paymentMethod = payment.paymentMethod

/-- The first date a source is used on after it was saved: applied later, or refunded. -/
def earliestUse (s : Receivables) (sourceId : Id) : Option String :=
  ((((s.rows.filter fun r => r.paymentId = sourceId ∧ r.live).filterMap AppRow.appliedDate) ++
    (s.docs.filter fun d => d.refunds sourceId).map ArDoc.txnDate).insertionSort (· ≤ ·)).head?

/-- A source's date may not move after its first use. -/
def assertSourceDate (s : Receivables) (sourceId : Id) (newDate : String) :
    Except PayError Unit :=
  match earliestUse s sourceId with
  | none => .ok ()
  | some first => ensure (newDate ≤ first) (.sourceDateAfterUse sourceId first)

/-- Sets aside what a payment settled: the draws made inside it, its own rows, and the credits
applied inside it. -/
def setAside (s : Receivables) (facts : PaymentFacts) (paymentId : Id) :
    Except PayError Receivables := do
  let own := (liveApplications s paymentId).filter fun a => a.appliedDate = none
  let inside := creditsAppliedIn s paymentId
  let s ← (innerDraws s paymentId).foldlM
    (fun s d => voidAt none facts.refuse s.txns.length s d.id) s
  (own ++ inside).foldlM (restoreOrStop .voided paymentId) s

/-- The header and lines of an edited payment. -/
def ArTxn.edit (input : ReceivePaymentInput) (parsed : Parsed) (lines : List ArLine) (t : ArTxn) :
    ArTxn :=
  { t with txnDate := input.date, contactId := some input.customerId
           total := round4 parsed.amount, lines := lines }

def holdLines (depositTo customerDeposits customerId : Id) (amount : Dec) : List ArLine :=
  [⟨depositTo, round4 amount, 0, none⟩, ⟨customerDeposits, 0, round4 amount, some customerId⟩]

/-- Edits a payment: what it settled is set aside, the new body checked against what is left and
written in its place. -/
def updatePayment (s : Receivables) (paymentId : Id) (input : ReceivePaymentInput)
    (companyId : Option Id) (facts : PaymentFacts) : Except PayError Receivables := do
  let parsed ← parseSettlement input
  let payment ← postedDoc s paymentId .customerPayment companyId
  ensure (liveBounce s paymentId = none) (.paymentBounced paymentId)
  ensure (payment.fromDepositId = none) .notAllowed
  ensure (payment.holdsDeposit = input.holdAsDeposit) .notAllowed
  ensure (payment.holdsDeposit = false ∨ liveDraws s paymentId = []) (.depositApplied paymentId)
  ensure (∀ c ∈ parsed.credits, c.sourcePaymentId ≠ paymentId) .notAllowed
  let all := liveApplications s paymentId
  let own := all.filter fun a => a.appliedDate = none
  let later := all.filter fun a => a.appliedDate ≠ none
  ensure (depositToOf chart payment ≠ none) (.noMoneyReceived paymentId)
  facts.refuse
  if unchanged chart s payment input parsed own then return s
  else
    if input.date ≠ payment.txnDate then
      assertSourceDate s paymentId input.date
    let drawn := (later.map AppRow.amount).sum + liveRefundTotal s paymentId
    ensure (payment.contactId = some input.customerId ∨ ¬0 < drawn) (.creditInUse drawn)
    ensure (drawn ≤ parsed.amount - parsed.cash) (.creditInUse drawn)
    assertDepositAccount chart input.depositTo companyId
    let accounts ← resolveSettleAccounts chart companyId input parsed facts.settings
    let s ← setAside s facts paymentId
    validateSources s parsed.credits input.customerId companyId input.date
    let valid ← validateInvoices s parsed input.customerId companyId
    let ar ← arAccountId chart
    ensure (payment.holdsDeposit = false ∨ (parsed.apps = [] ∧ parsed.credits = []))
      .depositWithApplications
    let s := deleteShareRows s paymentId
    let (apps, tax) ← attachShares chart facts payment.salesTaxSsuta valid.apps
    let lines := if payment.holdsDeposit then
        holdLines input.depositTo facts.customerDeposits input.customerId parsed.amount
      else paymentLines input.depositTo ar input.customerId parsed accounts tax
    let s := s.setTxn paymentId (·.edit input parsed lines)
    return writeSettlement s ar facts companyId paymentId input.date apps valid.credits accounts

end Edit

section Documents

variable (chart : Chart)

/-- A document's own line: its account, and what it credits it (debits, below zero). -/
structure SalesLine where
  accountId : Id
  amount : Dec
  deriving DecidableEq, Repr

def side (amount : Dec) : Dec × Dec :=
  if amount < 0 then (0, round4 (-amount)) else (round4 amount, 0)

def SalesLine.credited (l : SalesLine) : ArLine :=
  ⟨l.accountId, (side l.amount).2, (side l.amount).1, none⟩

def SalesLine.debited (l : SalesLine) : ArLine :=
  ⟨l.accountId, (side l.amount).1, (side l.amount).2, none⟩

/-- An invoice with its computed figures: A/R is debited the total, each line credits its account. -/
def createInvoice (s : Receivables) (contactId : Id) (txnDate : String) (lines : List SalesLine)
    (total : CentAmount) (companyId : Option Id) (facts : PaymentFacts) :
    Except PayError Receivables := do
  let ar ← arAccountId chart
  facts.refuse
  let t := total.val
  return s.addTxn
    { id := s.nextId, txnType := .invoice, companyId := companyId, contactId := some contactId
      txnDate := txnDate, total := round4 t, balanceDue := round4 t, invoiceStatus := some .draft
      lines := ⟨ar, (side t).1, (side t).2, none⟩ :: lines.map SalesLine.credited }

/-- The posting of a credit memo: the mirror image of an invoice's. -/
def memoTxn (s : Receivables) (ar contactId : Id) (txnDate : String) (lines : List SalesLine)
    (total : Dec) (companyId : Option Id) : ArTxn :=
  { id := s.nextId, txnType := .creditMemo, companyId := companyId, contactId := some contactId
    txnDate := txnDate, total := round4 total
    lines := ⟨ar, (side total).2, (side total).1, none⟩ :: lines.map SalesLine.debited }

/-- A credit memo of the sales documents: its total is above zero, and it may be applied at once. -/
def createCreditMemoDocument (s : Receivables) (contactId : Id) (txnDate : String)
    (lines : List SalesLine) (total : CentAmount) (applications : List CreditApplication)
    (companyId : Option Id) (facts : PaymentFacts) : Except PayError Receivables := do
  ensure (0 < total.val) (.creditMemoTotalNotPositive total.val)
  let ar ← arAccountId chart
  facts.refuse
  let memo := memoTxn s ar contactId txnDate lines total.val companyId
  let s := s.addTxn memo
  if applications = [] then return s
  else applyCreditInTx chart s memo.toArDoc txnDate applications companyId true facts

structure CreditMemoLine where
  accountId : Id
  quantity : Dec
  unitPrice : Dec
  deriving DecidableEq, Repr

/-- Each line to the cent. -/
def CreditMemoLine.sales (l : CreditMemoLine) : SalesLine :=
  ⟨l.accountId, round2 (l.quantity * l.unitPrice)⟩

/-- A credit memo of the older path: the exact sum of its lines, of either sign. -/
def createCreditMemo (s : Receivables) (contactId : Id) (txnDate : String)
    (lines : List CreditMemoLine) (appliedToInvoiceId : Option Id) (companyId : Option Id)
    (facts : PaymentFacts) : Except PayError Receivables := do
  let subtotal := ((lines.map CreditMemoLine.sales).map SalesLine.amount).sum
  let ar ← arAccountId chart
  facts.refuse
  let memo := memoTxn s ar contactId txnDate (lines.map CreditMemoLine.sales) subtotal companyId
  let s := s.addTxn memo
  match appliedToInvoiceId with
  | none => return s
  | some invoiceId =>
    if 0 < subtotal then
      applyCreditInTx chart s memo.toArDoc txnDate [⟨invoiceId, none, none⟩] companyId true facts
    else return s

structure RefundInput where
  contactId : Id
  txnDate : String
  amount : Dec
  refundFromAccountId : Id
  sourceId : Option Id

/-- What a refund is debited to: A/R, or Customer Deposits where its source is held. -/
def refundDebit (s : Receivables) (ar : Id) (input : RefundInput) (companyId : Option Id)
    (facts : PaymentFacts) : Except PayError Id :=
  match input.sourceId with
  | none => .ok ar
  | some sourceId =>
    match s.doc? sourceId with
    | none => .error .notFound
    | some src => do
      ensure (src.txnType.isCreditSource ∧ src.status ≠ .deleted ∧
        inOtherCompany src.companyId companyId = false) .notFound
      ensure (src.contactId = some input.contactId) (.creditNotForCustomer sourceId)
      ensure (src.txnDate ≤ input.txnDate) (.refundDateBeforeSource sourceId src.txnDate)
      ensure (src.txnType ≠ .customerPayment ∨ liveBounce s sourceId = none)
        (.paymentBounced sourceId)
      ensure (input.amount ≤ creditRemaining s src)
        (.creditNotAvailable false sourceId (creditRemaining s src))
      return if src.holdsDeposit then facts.customerDeposits else ar

/-- A refund, drawn on a source's remaining credit or on none. With no source, the amount is only
checked on the refunds' own route (`strictAccount`). -/
def createCustomerRefund (s : Receivables) (input : RefundInput) (strictAccount : Bool)
    (companyId : Option Id) (facts : PaymentFacts) : Except PayError Receivables := do
  let ar ← arAccountId chart
  ensure (input.sourceId.isSome ∨ strictAccount →
    input.amount = round2 input.amount ∧ 0 < input.amount) (.wholeCents "amount")
  let debit ← refundDebit s ar input companyId facts
  facts.refuse
  return s.addTxn
    { id := s.nextId, txnType := .customerRefund, companyId := companyId
      contactId := some input.contactId, txnDate := input.txnDate, total := round4 input.amount
      sourcePaymentId := input.sourceId
      lines := [⟨debit, round4 input.amount, 0, none⟩,
        ⟨input.refundFromAccountId, 0, round4 input.amount, none⟩] }

end Documents

section Run

inductive ArOp where
  | createInvoice (contactId : Id) (txnDate : String) (lines : List SalesLine) (total : CentAmount)
      (companyId : Option Id) (facts : PaymentFacts)
  | createCreditMemoDocument (contactId : Id) (txnDate : String) (lines : List SalesLine)
      (total : CentAmount) (applications : List CreditApplication) (companyId : Option Id)
      (facts : PaymentFacts)
  | createCreditMemo (contactId : Id) (txnDate : String) (lines : List CreditMemoLine)
      (appliedToInvoiceId : Option Id) (companyId : Option Id) (facts : PaymentFacts)
  | createCustomerRefund (input : RefundInput) (strictAccount : Bool) (companyId : Option Id)
      (facts : PaymentFacts)
  | receivePayment (input : ReceivePaymentInput) (companyId : Option Id) (facts : PaymentFacts)
  | updatePayment (paymentId : Id) (input : ReceivePaymentInput) (companyId : Option Id)
      (facts : PaymentFacts)
  | applyCredit (paymentId : Id) (date : String) (applications : List CreditApplication)
      (companyId : Option Id) (facts : PaymentFacts)
  | applyCreditMemo (memoId : Id) (date : String) (applications : List CreditApplication)
      (companyId : Option Id) (facts : PaymentFacts)
  | unapplyPayment (paymentId invoiceId : Id) (companyId : Option Id) (facts : PaymentFacts)
  | unapplyCreditMemo (memoId invoiceId : Id) (companyId : Option Id) (facts : PaymentFacts)
  | bouncePayment (paymentId : Id) (input : BounceInput) (companyId : Option Id)
      (facts : PaymentFacts)
  | voidTransaction (id : Id) (companyId : Option Id) (facts : PaymentFacts)

def arStep (chart : Chart) (s : Receivables) : ArOp → Except PayError Receivables
  | .createInvoice contactId txnDate lines total companyId facts =>
    createInvoice chart s contactId txnDate lines total companyId facts
  | .createCreditMemoDocument contactId txnDate lines total applications companyId facts =>
    createCreditMemoDocument chart s contactId txnDate lines total applications companyId facts
  | .createCreditMemo contactId txnDate lines appliedToInvoiceId companyId facts =>
    createCreditMemo chart s contactId txnDate lines appliedToInvoiceId companyId facts
  | .createCustomerRefund input strictAccount companyId facts =>
    createCustomerRefund chart s input strictAccount companyId facts
  | .receivePayment input companyId facts => receivePayment chart s input companyId facts
  | .updatePayment paymentId input companyId facts =>
    updatePayment chart s paymentId input companyId facts
  | .applyCredit paymentId date applications companyId facts =>
    applyCredit chart s paymentId date applications companyId facts
  | .applyCreditMemo memoId date applications companyId facts =>
    applyCreditMemo chart s memoId date applications companyId facts
  | .unapplyPayment paymentId invoiceId companyId facts =>
    unapplyPayment s paymentId invoiceId companyId facts
  | .unapplyCreditMemo memoId invoiceId companyId facts =>
    unapplyCreditMemo s memoId invoiceId companyId facts
  | .bouncePayment paymentId input companyId facts =>
    bouncePayment chart s paymentId input companyId facts
  | .voidTransaction id companyId facts => s.voidTransaction id companyId facts

/-- A company's receivables before anything is posted. -/
def Receivables.empty (uuids : Uuids) : Receivables := ⟨[], [], [], uuids, 0⟩

end Run

end MyBooks
