import MyBooks.Documents
import MyBooks.Runs

/-!
# Bank deposits

A line of a deposit may name the document it deposits: an item that waits in Payments Clearing, which is
deposited whole and once, or a vendor credit, refunded up to its open balance. The links are kept beside
the ledger (`links`), and on the rows that name a document (`sources`): a deposit writes them, and
rewriting, voiding or deleting it releases them. Every other operation goes through the ledger's own
guards.
-/

namespace MyBooks

namespace Deposits

/-- The accounts the deposits look up by their system tag. -/
structure SystemAccounts where
  paymentsClearing : Id
  accountsPayable : Id

structure DepositLink where
  depositId : Id
  sourceTransactionId : Id
  amount : Dec
  deriving DecidableEq, Repr

/-- The store with its deposit links, the document each row names, and of the vendor credits the totals
and what bill payments applied of them. -/
structure DepositBooks where
  store : Store
  links : List DepositLink
  sources : Id → Option Id
  totals : Id → Dec
  applications : List (Id × Dec)

inductive DepositError where
  | amountNotExact
  | sourceNotPositive
  | sourceDuplicate
  | cashBackAccount
  | cashBackNotPositive
  | totalNotPositive
  | sourceInvalid (sourceTransactionId : Id)
  | vendorRefundAccount
  | vendorRefundContact
  | vendorCreditExceeded (sourceTransactionId : Id) (openBalance : Dec)
  | paymentBounced
  | sourceAccount
  | alreadyDeposited (sourceTransactionId depositId : Id)
  | amountMismatch (sourceTransactionId : Id) (expected : Dec)
  | linksDropped (sourceTransactionIds : List Id)
  | deposited (depositIds : List Id)
  | creditApplied
  | notFound
  | ledger (e : LedgerError)
  deriving DecidableEq, Repr

/-- A ledger operation in the books with their deposits. -/
def DepositBooks.onLedger (s : DepositBooks) (x : Except LedgerError Store) : Except DepositError DepositBooks :=
  match x with
  | .ok store => .ok { s with store := store }
  | .error e => .error (.ledger e)

section Links

variable (s : DepositBooks) (sys : SystemAccounts)

/-- The links of posted deposits to a document, but for one deposit's. -/
def DepositBooks.liveDepositsForSource (t : Id) (exceptDepositId : Option Id) : List DepositLink :=
  s.links.filter fun k =>
    k.sourceTransactionId = t ∧ s.store.books.status k.depositId = some .posted ∧ some k.depositId ≠ exceptDepositId

/-- The rows of a document in Payments Clearing. -/
def clearingLines (b : Books) (t : Id) : List JournalLine :=
  (b.linesOf t).filter fun l => l.accountId = sys.paymentsClearing ∧ l.isVoidReversal = false

def lineSum (ls : List JournalLine) : Dec := (ls.map fun l => l.debit - l.credit).sum

/-- What a document has waiting in Payments Clearing. -/
def clearingAmount (b : Books) (t : Id) : Dec := lineSum (clearingLines sys b t)

def DepositBooks.refunded (t : Id) (exceptDepositId : Option Id) : Dec :=
  ((s.liveDepositsForSource t exceptDepositId).map (·.amount)).sum

def DepositBooks.applied (t : Id) : Dec := ((s.applications.filter fun a => a.1 = t).map (·.2)).sum

def DepositBooks.vendorCreditOpenBalance (t : Id) (exceptDepositId : Option Id) : Dec :=
  max 0 (minus (minus (s.totals t) (s.applied t)) (s.refunded t exceptDepositId))

/-- The document a row names. Rows of the costing walk name none. -/
def DepositBooks.names (l : JournalLine) : Option Id := if l.derived then none else s.sources l.id

def DepositBooks.isCredit (t : Id) : Bool := (s.store.books.txns t).any (·.txnType = .vendorCredit)

def DepositBooks.assertNotDeposited (t : Id) : Except DepositError Unit :=
  let live := s.liveDepositsForSource t none
  if live = [] then .ok () else .error (.deposited (live.map (·.depositId)))

/-- What the lines of a call put into Payments Clearing. -/
def heldBy (lines : List LineInput) : Dec :=
  (lines.filter fun l => l.accountId = sys.paymentsClearing).foldl (fun acc l => minus (plus acc l.debit) l.credit) 0

/-- A deposited item keeps what the deposit took; a refunded vendor credit is not edited. -/
def DepositBooks.assertDepositedAmountKept (t : Id) (input : PostInput) : Except DepositError Unit :=
  let live := s.liveDepositsForSource t none
  let deposited := live.foldl (fun acc k => plus acc k.amount) 0
  if live = [] then .ok ()
  else if s.isCredit t = false ∧ heldBy sys input.lines = deposited then .ok ()
  else s.assertNotDeposited t

def DepositBooks.releaseDepositLinks (d : Id) : DepositBooks :=
  { s with links := s.links.filter fun k => k.depositId ≠ d }

/-- The rows an edit keeps get what their lines name, as do the new ones. -/
def DepositBooks.renamed (t : Id) (input : PostInput) (named : Id → Option Id) : Id → Option Id :=
  let fresh (new : List LineInput) (id : Id) : Option Id :=
    if id ∈ new.map (·.id) then named id else s.sources id
  match s.store.reconciled t, (s.store.books.txns t).bind fun txn => partialEdit s.store.books t txn.txnDate input with
  | true, some (kept, new) => fun id =>
    match kept.find? fun p => p.1.id = id with
    | some p => named p.2.id
    | none => fresh new id
  | _, _ => fresh input.lines

end Links

/-- A line of a deposit, with the id of its row. -/
structure DepositLineInput where
  rowId : Id
  accountId : Id
  amount : Dec
  tagId : Option Id
  contactId : Option Id
  sourceTransactionId : Option Id

structure CashBackInput where
  rowId : Id
  accountId : Id
  amount : Dec

structure CreateDepositInput where
  txnDate : String
  depositToAccountId : Id
  bankRowId : Id
  lines : List DepositLineInput
  cashBack : Option CashBackInput
  strictAmounts : Bool

section Plan

/-- A line with its amount at the scale of the ledger. -/
structure PlannedLine where
  line : DepositLineInput
  amount : Dec

structure DepositPlan where
  payload : PostInput
  lines : List PlannedLine

def exactAmount (v : Dec) : Except DepositError Dec :=
  if round4 v = v then .ok v else .error .amountNotExact

def lineAmount (strict : Bool) (line : DepositLineInput) : Except DepositError Dec :=
  if line.sourceTransactionId.isSome || strict then exactAmount line.amount else .ok (round4 line.amount)

/-- The lines with their amounts. A document is named once, for a positive amount. -/
def planLines (strict : Bool) (seen : List Id) : List DepositLineInput → Except DepositError (List PlannedLine)
  | [] => .ok []
  | line :: lines => do
    let amount ← lineAmount strict line
    match line.sourceTransactionId with
    | none => return ⟨line, amount⟩ :: (← planLines strict seen lines)
    | some t =>
      if amount ≤ 0 then .error .sourceNotPositive
      else if t ∈ seen then .error .sourceDuplicate
      else return ⟨line, amount⟩ :: (← planLines strict (t :: seen) lines)

/-- A negative amount is a debit. -/
def PlannedLine.input (p : PlannedLine) : LineInput :=
  { id := p.line.rowId, accountId := p.line.accountId
    debit := if p.amount < 0 then -p.amount else 0, credit := if p.amount < 0 then 0 else p.amount
    tagId := p.line.tagId }

/-- What is kept back, with its line. -/
def cashBackLine (depositToAccountId : Id) : Option CashBackInput → Except DepositError (Dec × List LineInput)
  | none => .ok (0, [])
  | some c =>
    if c.accountId = depositToAccountId then .error .cashBackAccount
    else do
      let amount ← exactAmount c.amount
      if amount ≤ 0 then .error .cashBackNotPositive
      else .ok (amount, [{ id := c.rowId, accountId := c.accountId, debit := amount, credit := 0, tagId := none }])

def planDeposit (input : CreateDepositInput) : Except DepositError DepositPlan := do
  let lines ← planLines input.strictAmounts [] input.lines
  let lineTotal := lines.foldl (fun acc p => plus acc p.amount) 0
  let cashBack ← cashBackLine input.depositToAccountId input.cashBack
  let bank := minus lineTotal cashBack.1
  let rows : List LineInput := { id := input.bankRowId, accountId := input.depositToAccountId, debit := round4 bank
                                 credit := 0, tagId := none } :: lines.map (·.input) ++ cashBack.2
  if bank ≤ 0 then .error .totalNotPositive
  else if ¬(rows.map LineInput.id).Nodup then .error (.ledger .storage)
  else .ok {
    lines := lines
    payload := {
      txnType := .deposit, txnDate := input.txnDate, status := none, contactId := none, lines := rows } }

/-- What a line deposits. -/
structure SourceRef where
  sourceTransactionId : Id
  line : DepositLineInput
  amount : Dec

def DepositPlan.sources (plan : DepositPlan) : List SourceRef :=
  plan.lines.filterMap fun p => p.line.sourceTransactionId.map fun t => ⟨t, p.line, p.amount⟩

/-- The document a row of the plan names. -/
def DepositPlan.named (plan : DepositPlan) (rowId : Id) : Option Id :=
  (plan.sources.find? fun src => src.line.rowId = rowId).map (·.sourceTransactionId)

def DepositPlan.links (plan : DepositPlan) (d : Id) : List DepositLink :=
  plan.sources.map fun src => ⟨d, src.sourceTransactionId, src.amount⟩

end Plan

/-- What a deposit reads elsewhere: the documents of the company, the payments that bounced, and what
the other services refuse. -/
structure DepositFacts where
  inCompany : Id → Bool
  bounced : Id → Bool
  refusal : Refusal

section Calls

variable (sys : SystemAccounts) (s : DepositBooks)

def cashBackRefused : List SystemTag :=
  [.paymentsClearing, .accountsReceivable, .accountsPayable, .salesTaxPayable]

def DepositBooks.validateCashBackAccount (input : CreateDepositInput) : Except DepositError Unit :=
  match (input.cashBack.bind fun c => s.store.books.accounts c.accountId).bind (·.systemTag) with
  | some tag => if tag ∈ cashBackRefused then .error .cashBackAccount else .ok ()
  | none => .ok ()

/-- A document as a deposit takes it. `depositId` is the deposit that is edited. -/
def DepositBooks.validateSource (facts : DepositFacts) (depositId : Option Id) (src : SourceRef) :
    Except DepositError Unit :=
  let t := src.sourceTransactionId
  match s.store.books.txns t with
  | none => .error (.sourceInvalid t)
  | some row =>
    if facts.inCompany t = false then .error (.sourceInvalid t)
    else if row.status ≠ .posted then .error (.sourceInvalid t)
    else if row.txnType = .vendorCredit then
      let openBalance := s.vendorCreditOpenBalance t depositId
      if src.line.accountId ≠ sys.accountsPayable then .error .vendorRefundAccount
      else if src.line.contactId.isSome ∧ src.line.contactId ≠ row.contactId then .error .vendorRefundContact
      else if openBalance < src.amount then .error (.vendorCreditExceeded t openBalance)
      else .ok ()
    else if facts.bounced t then .error .paymentBounced
    else if src.line.accountId ≠ sys.paymentsClearing then .error .sourceAccount
    else
      match s.liveDepositsForSource t depositId with
      | k :: _ => .error (.alreadyDeposited t k.depositId)
      | [] =>
        let pending := clearingAmount sys s.store.books t
        if pending ≤ 0 then .error (.sourceInvalid t)
        else if src.amount ≠ pending then .error (.amountMismatch t pending)
        else .ok ()

def DepositBooks.lockAndValidateSources (facts : DepositFacts) (plan : DepositPlan) (depositId : Option Id) :
    Except DepositError Unit :=
  plan.sources.forM (s.validateSource sys facts depositId)

def DepositBooks.createDeposit (d : Id) (input : CreateDepositInput) (facts : DepositFacts) :
    Except DepositError DepositBooks := do
  let plan ← planDeposit input
  s.validateCashBackAccount input
  s.lockAndValidateSources sys facts plan none
  let posted ← s.onLedger (postTransaction s.store d plan.payload facts.refusal none)
  return { posted with
    links := s.links ++ plan.links d
    sources := fun id => if id ∈ plan.payload.lines.map (·.id) then plan.named id else s.sources id }

/-- An edit does not keep a line on its account and drop what the line named. -/
def DepositBooks.assertLinksNotDropped (d : Id) (input : CreateDepositInput) (plan : DepositPlan) :
    Except DepositError Unit :=
  let linked := (s.store.books.editable d).filterMap fun l => (s.names l).map fun t => (l.accountId, t)
  let kept := plan.sources.map (·.sourceTransactionId)
  let unlinked := (input.lines.filter fun l => l.sourceTransactionId.isNone).map (·.accountId)
  let dropped := linked.filter fun l => l.2 ∉ kept ∧ l.1 ∈ unlinked
  if dropped = [] then .ok () else .error (.linksDropped (dropped.map (·.2)))

/-- Nor is a deposit edited that took a payment which bounced. A void one holds nothing. -/
def DepositBooks.assertLinksEditable (d : Id) (existing : Txn) (input : CreateDepositInput)
    (plan : DepositPlan) (facts : DepositFacts) : Except DepositError Unit :=
  if existing.status = .void then .ok ()
  else do
    s.assertLinksNotDropped d input plan
    if (s.links.filter fun k => k.depositId = d).any fun k => facts.bounced k.sourceTransactionId then
      .error .paymentBounced
    else .ok ()

/-- The ledger's edit of a document, and what its rows name afterwards. -/
def DepositBooks.rewrite (t : Id) (input : PostInput) (named : Id → Option Id) (apDocumentEdit : Bool)
    (refusal : Refusal) (costing : Option Costing) : Except DepositError DepositBooks := do
  s.assertDepositedAmountKept sys t input
  let updated ← s.onLedger (updateTransaction s.store t input apDocumentEdit refusal costing)
  return { updated with sources := s.renamed t input named }

def DepositBooks.updateDeposit (d : Id) (input : CreateDepositInput) (facts : DepositFacts) :
    Except DepositError DepositBooks := do
  let plan ← planDeposit input
  match s.store.books.txns d with
  | none => .error .notFound
  | some existing =>
    if existing.txnType ≠ .deposit ∨ existing.status = .deleted ∨ facts.inCompany d = false then .error .notFound
    else do
      s.validateCashBackAccount input
      s.assertLinksEditable d existing input plan facts
      let released := if existing.status = .void then s else s.releaseDepositLinks d
      released.lockAndValidateSources sys facts plan (some d)
      let updated ← released.rewrite sys d plan.payload plan.named false facts.refusal none
      return { updated with links := released.links ++ plan.links d }

/-- Any other document, posted. A vendor credit comes to something. -/
def DepositBooks.post (t : Id) (input : PostInput) (total : Dec) (refusal : Refusal) (costing : Option Costing) :
    Except DepositError DepositBooks := do
  let posted ← s.onLedger (postTransaction s.store t input refusal costing)
  if ¬|round4 total| < 10 ^ 15 ∨ (input.txnType = .vendorCredit ∧ total ≤ 0) then .error (.ledger .storage)
  else return { posted with
    totals := fun id => if id = t then round4 total else s.totals id
    sources := fun id => if id ∈ input.lines.map (·.id) then none else s.sources id }

/-- An edit of a document as anything but a deposit: its lines name nothing. -/
def DepositBooks.update (t : Id) (input : PostInput) (refusal : Refusal) (costing : Option Costing) :
    Except DepositError DepositBooks :=
  s.rewrite sys t input (fun _ => none) false refusal costing

/-- A vendor credit is edited while nothing is applied or refunded of it. -/
def DepositBooks.updateVendorCredit (t : Id) (input : PostInput) (total : Dec) (refusal : Refusal)
    (costing : Option Costing) : Except DepositError DepositBooks := do
  if total ≤ 0 ∨ ¬|round4 total| < 10 ^ 15 then .error (.ledger .storage)
  else if s.isCredit t = false then .error .notFound
  else if (s.applications.filter fun a => a.1 = t) ≠ [] ∨ s.liveDepositsForSource t none ≠ [] then
    .error .creditApplied
  else do
    let updated ← s.rewrite sys t input (fun _ => none) true refusal costing
    return { updated with totals := fun id => if id = t then round4 total else s.totals id }

def DepositBooks.voidDocument (t : Id) (ids : List Id) (refusal : Refusal) (costing : Option Costing) :
    Except DepositError DepositBooks := do
  s.assertNotDeposited t
  (s.releaseDepositLinks t).onLedger (voidTransaction s.store t ids refusal costing)

def DepositBooks.deleteDocument (t : Id) (ids : List Id) (refusal : Refusal) (costing : Option Costing) :
    Except DepositError DepositBooks := do
  s.assertNotDeposited t
  (s.releaseDepositLinks t).onLedger (deleteTransaction s.store t ids refusal costing)

/-- A document with rows of the costing walk moves stock. -/
def DepositBooks.bulkFacts (facts : BulkFacts) : BulkFacts :=
  { facts with touchesInventory := fun t =>
      facts.touchesInventory t || (s.store.books.linesOf t).any (·.derived) }

def DepositBooks.bulkUpdate (input : BulkInput) (facts : BulkFacts) (refusal : Refusal) :
    Except DepositError DepositBooks :=
  s.onLedger ((bulkUpdateTransactions s.store input (s.bulkFacts facts) refusal).map (·.1))

end Calls

inductive DepositAction where
  | post (t : Id) (input : PostInput) (total : Dec) (refusal : Refusal) (costing : Option Costing)
  | createDeposit (d : Id) (input : CreateDepositInput) (facts : DepositFacts)
  | updateDeposit (d : Id) (input : CreateDepositInput) (facts : DepositFacts)
  | update (t : Id) (input : PostInput) (refusal : Refusal) (costing : Option Costing)
  | updateVendorCredit (t : Id) (input : PostInput) (total : Dec) (refusal : Refusal)
      (costing : Option Costing)
  | void (t : Id) (ids : List Id) (refusal : Refusal) (costing : Option Costing)
  | delete (t : Id) (ids : List Id) (refusal : Refusal) (costing : Option Costing)
  | bulk (input : BulkInput) (facts : BulkFacts) (refusal : Refusal)

section Run

variable (sys : SystemAccounts) (s : DepositBooks)

def depositCall : DepositAction → Except DepositError DepositBooks
  | .post t input total refusal costing => s.post t input total refusal costing
  | .createDeposit d input facts => s.createDeposit sys d input facts
  | .updateDeposit d input facts => s.updateDeposit sys d input facts
  | .update t input refusal costing => s.update sys t input refusal costing
  | .updateVendorCredit t input total refusal costing =>
    s.updateVendorCredit sys t input total refusal costing
  | .void t ids refusal costing => s.voidDocument t ids refusal costing
  | .delete t ids refusal costing => s.deleteDocument t ids refusal costing
  | .bulk input facts refusal => s.bulkUpdate input facts refusal

/-- A call that throws leaves everything as it was. -/
def depositStep (action : DepositAction) : Option DepositBooks :=
  some ((depositCall sys s action).toOption.getD s)

end Run

end Deposits

end MyBooks
