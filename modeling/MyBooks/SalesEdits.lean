import MyBooks.Payments

/-!
# Edits of invoices and credit memos

`updateInvoice` and `updateCreditMemoDocument`, and what marks an invoice as sent or viewed. A step of
`salesStep` is one of these or an operation on payments.
-/

namespace MyBooks

inductive SalesDocError where
  | notAnInvoice
  | voidDocument
  | invoicePaid
  | invoiceTotalBelowPaid (total amountPaid : Dec)
  | notDraft
  | pay (e : PayError)
  deriving DecidableEq, Repr

def SalesDocError.code : SalesDocError → Option String
  | .invoiceTotalBelowPaid _ _ => some "INVOICE_TOTAL_BELOW_PAID"
  | .notAnInvoice | .voidDocument | .invoicePaid | .notDraft => none
  | .pay e => e.code

/-- A check or an operation of the payments. -/
def ofPay {α : Type} : Except PayError α → Except SalesDocError α := Except.mapError .pay

/-- Stops with `e` unless `p` holds. -/
def require (p : Prop) [Decidable p] (e : SalesDocError) : Except SalesDocError Unit :=
  if p then .ok () else .error e

@[simp] theorem require_ok {p : Prop} [Decidable p] {e : SalesDocError} {u : Unit} :
    require p e = .ok u ↔ p := by
  unfold require
  split_ifs with h <;> simp [h]

@[simp] theorem ofPay_ok {α : Type} {x : Except PayError α} {a : α} : ofPay x = .ok a ↔ x = .ok a := by
  cases x <;> simp [ofPay, Except.mapError]

section Invoices

variable (chart : Chart) (s : Receivables)

/-- An invoice of the request's company, as GET /invoices/:id finds it. -/
def getInvoice (invoiceId : Id) (companyId : Option Id) : Except SalesDocError ArTxn :=
  match s.txn? invoiceId with
  | none => .error (.pay .notFound)
  | some t => do
    require (t.status ≠ .deleted ∧ inOtherCompany t.companyId companyId = false) (.pay .notFound)
    require (t.txnType = .invoice) .notAnInvoice
    return t

/-- An invoice's client may change only while no live payment or credit is applied to it. -/
def assertInvoiceClientChangeAllowed (existing : ArDoc) (newContactId : Id) : Except PayError Unit :=
  if existing.contactId = some newContactId then .ok () else assertInvoiceUnapplied s existing

/-- The header and lines of an edited invoice; one edited down to what was paid is paid. -/
def ArTxn.editInvoice (ar contactId : Id) (txnDate : String) (lines : List SalesLine) (total : Dec)
    (t : ArTxn) : ArTxn :=
  let balanceDue := total - t.amountPaid
  { t with
    txnDate := txnDate, contactId := some contactId, total := round4 total
    balanceDue := round4 balanceDue
    invoiceStatus :=
      if 0 < t.amountPaid ∧ ¬0 < round2 balanceDue then some .paid else t.invoiceStatus
    lines := ⟨ar, (side total).1, (side total).2, none⟩ :: lines.map SalesLine.credited }

/-- Edits an invoice that is not paid, with its figures computed anew. -/
def updateInvoice (invoiceId contactId : Id) (txnDate : String) (lines : List SalesLine)
    (total : CentAmount) (companyId : Option Id) (facts : PaymentFacts) :
    Except SalesDocError Receivables := do
  let existing ← getInvoice s invoiceId companyId
  require (existing.status ≠ .void) .voidDocument
  require (existing.invoiceStatus ≠ some .paid) .invoicePaid
  ofPay (assertInvoiceClientChangeAllowed s existing.toArDoc contactId)
  let ar ← ofPay (arAccountId chart)
  require (¬0 < existing.amountPaid ∨ existing.amountPaid ≤ total.val)
    (.invoiceTotalBelowPaid total.val existing.amountPaid)
  ofPay facts.refuse
  return s.setTxn invoiceId (·.editInvoice ar contactId txnDate lines total.val)

def ArTxn.markSent (t : ArTxn) : ArTxn := { t with invoiceStatus := some .sent, sent := true }

/-- Marks a draft as sent. -/
def markAsSent (invoiceId : Id) (companyId : Option Id) : Except SalesDocError Receivables := do
  let t ← getInvoice s invoiceId companyId
  require (t.invoiceStatus = some .draft) .notDraft
  return s.setTxn invoiceId ArTxn.markSent

/-- Sends an invoice, whatever its status is. -/
def sendInvoice (invoiceId : Id) (companyId : Option Id) : Except SalesDocError Receivables := do
  let _ ← getInvoice s invoiceId companyId
  return s.setTxn invoiceId ArTxn.markSent

/-- A send of an invoice; only a draft becomes sent. -/
def ArTxn.recordSent (t : ArTxn) : ArTxn :=
  { t with
    invoiceStatus := if t.invoiceStatus = some .draft then some .sent else t.invoiceStatus
    sent := true }

def recordInvoiceSent (invoiceId : Id) (companyId : Option Id) : Except SalesDocError Receivables := do
  let t ← getInvoice s invoiceId companyId
  require (t.status ≠ .void) .voidDocument
  return s.setTxn invoiceId ArTxn.recordSent

/-- The first view of an invoice through its link; only a sent one becomes viewed. -/
def ArTxn.markViewed (t : ArTxn) : ArTxn :=
  if t.viewed then t
  else
    { t with
      viewed := true
      invoiceStatus := if t.invoiceStatus = some .sent then some .viewed else t.invoiceStatus }

def markViewed (txnId : Id) : Receivables := s.setTxn txnId ArTxn.markViewed

end Invoices

section CreditMemos

variable (chart : Chart) (s : Receivables)

/-- The header and lines of an edited credit memo. -/
def ArTxn.editMemo (ar contactId : Id) (txnDate : String) (lines : List SalesLine) (total : Dec)
    (t : ArTxn) : ArTxn :=
  { t with
    txnDate := txnDate, contactId := some contactId, total := round4 total
    lines := ⟨ar, (side total).2, (side total).1, none⟩ :: lines.map SalesLine.debited }

/-- Edits a credit memo: its total stays at least what is applied and refunded, and its client stays
while anything is. -/
def updateCreditMemoDocument (memoId contactId : Id) (txnDate : String) (lines : List SalesLine)
    (total : CentAmount) (companyId : Option Id) (facts : PaymentFacts) :
    Except SalesDocError Receivables :=
  match s.doc? memoId with
  | none => .error (.pay .notFound)
  | some memo => do
    require (memo.txnType = .creditMemo ∧ memo.status ≠ .deleted ∧
      inOtherCompany memo.companyId companyId = false) (.pay .notFound)
    require (memo.status = .posted) .voidDocument
    require (0 < total.val) (.pay (.creditMemoTotalNotPositive total.val))
    let inUse := ((liveApplications s memoId).map AppRow.amount).sum + liveRefundTotal s memoId
    require (¬0 < inUse ∨ memo.contactId = some contactId) (.pay (.creditInUse inUse))
    require (inUse ≤ total.val) (.pay (.creditInUse inUse))
    if memo.txnDate ≠ txnDate then
      ofPay (assertSourceDate s memoId txnDate)
    let ar ← ofPay (arAccountId chart)
    ofPay facts.refuse
    return s.setTxn memoId (·.editMemo ar contactId txnDate lines total.val)

end CreditMemos

section Run

inductive SalesOp where
  | ar (op : ArOp)
  | updateInvoice (invoiceId contactId : Id) (txnDate : String) (lines : List SalesLine)
      (total : CentAmount) (companyId : Option Id) (facts : PaymentFacts)
  | updateCreditMemoDocument (memoId contactId : Id) (txnDate : String) (lines : List SalesLine)
      (total : CentAmount) (companyId : Option Id) (facts : PaymentFacts)
  | markAsSent (invoiceId : Id) (companyId : Option Id)
  | sendInvoice (invoiceId : Id) (companyId : Option Id)
  | recordInvoiceSent (invoiceId : Id) (companyId : Option Id)
  | markViewed (txnId : Id)

def salesStep (chart : Chart) (s : Receivables) : SalesOp → Except SalesDocError Receivables
  | .ar op => ofPay (arStep chart s op)
  | .updateInvoice invoiceId contactId txnDate lines total companyId facts =>
    updateInvoice chart s invoiceId contactId txnDate lines total companyId facts
  | .updateCreditMemoDocument memoId contactId txnDate lines total companyId facts =>
    updateCreditMemoDocument chart s memoId contactId txnDate lines total companyId facts
  | .markAsSent invoiceId companyId => markAsSent s invoiceId companyId
  | .sendInvoice invoiceId companyId => sendInvoice s invoiceId companyId
  | .recordInvoiceSent invoiceId companyId => recordInvoiceSent s invoiceId companyId
  | .markViewed txnId => .ok (markViewed s txnId)

end Run

end MyBooks
