import MyBooks.Receivables
import MyBooks.RecurrenceText
import MyBooks.Tally
import Mathlib.Data.List.Dedup

/-!
# The open receivables as of a date

The report starts from the lines on receivables, one item for each client of a transaction, and
moves what each application settled from its source's item to its invoice's. A refund is shown with
what it pays out, and a bounced payment that nets away with its bounce is not shown.

Amounts that the source prints are the numbers it prints.
-/

namespace MyBooks

namespace OpenItems

/-! ## The items of the ledger -/

/-- A transaction, with the columns that the report shows of it. -/
structure Txn extends ArDoc where
  txnNumber : Option String := none
  referenceNumber : Option String := none
  dueDate : Option String := none
  appliedToInvoiceId : Option Id := none
  isFinanceCharge : Bool := false
  /-- The tags of its lines. -/
  tagIds : List Id := []

/-- A bad debt that came in after all. -/
structure Recovery where
  recoveryTxnId : Id
  invoiceId : Id
  amount : Dec

structure Source where
  chart : Chart
  txns : List Txn
  rows : List AppRow
  recoveries : List Recovery

structure OpenItemsQuery where
  companyId : Option Id := none
  asOf : String
  contactIds : List Id := []
  tagIds : List Id := []

/-- What the maps know an item by: its client and its transaction. -/
abbrev Key := Option Id × Id

structure Work where
  contactId : Option Id
  txnContactId : Option Id
  txnId : Id
  txnType : TxnType
  number : Option String
  date : String
  dueDate : Option String
  original : Dec
  openAmount : Dec
  sourceTxnId : Option Id
  sourcePaymentId : Option Id
  appliedToInvoiceId : Option Id
  fromDepositId : Option Id
  isFinanceCharge : Bool

def Work.key (w : Work) : Key := (w.contactId, w.txnId)

def net (l : ArLine) : Dec := l.debit - l.credit

/-- `COALESCE(jl.contact_id, t.contact_id)`. -/
def Txn.contactOf (t : Txn) (l : ArLine) : Option Id := l.contactId.or t.contactId

def Txn.dated (q : OpenItemsQuery) (t : Txn) : Bool :=
  t.status = .posted ∧ t.txnDate ≤ q.asOf ∧ inOtherCompany t.companyId q.companyId = false

section Ledger

variable (src : Source) (q : OpenItemsQuery)

def Source.arLines (t : Txn) : List ArLine :=
  t.lines.filter fun l => src.chart.isAr l.accountId &&
    (q.contactIds.isEmpty || (t.contactOf l).any fun c => c ∈ q.contactIds)

def Txn.item (t : Txn) (lines : List ArLine) (c : Option Id) : Work :=
  let amount := round4 (tally (fun l => t.contactOf l = c) net lines)
  { contactId := c
    txnContactId := t.contactId
    txnId := t.id
    txnType := t.txnType
    number := t.txnNumber.or t.referenceNumber
    date := t.txnDate
    dueDate := if t.txnType = .invoice then some (t.dueDate.getD t.txnDate) else none
    original := amount
    openAmount := amount
    sourceTxnId := t.sourceTxnId
    sourcePaymentId := t.sourcePaymentId
    appliedToInvoiceId := t.appliedToInvoiceId
    fromDepositId := t.fromDepositId
    isFinanceCharge := t.isFinanceCharge }

def Source.itemsOf (t : Txn) : List Work :=
  ((src.arLines q t).map t.contactOf).dedup.map (t.item (src.arLines q t))

/-- The rows of the first query, which come in no order. -/
def Source.items : List Work := (src.txns.filter (Txn.dated q)).flatMap (src.itemsOf q)

end Ledger

/-! ## Moves -/

/-- What moves from a source's item to an invoice's. -/
structure Move where
  sourceId : Id
  invoiceId : Id
  settled : Dec

section Moves

variable (src : Source) (q : OpenItemsQuery)

def Source.posted? (i : Id) : Option Txn := src.txns.find? fun t => t.id = i ∧ t.status = .posted

/-- The row is not reversed, or by a bounce that is dated later. -/
def Source.stands (r : AppRow) : Bool :=
  r.reversedByTxnId.all fun i => (src.posted? i).any fun rp => q.asOf < rp.txnDate

def Source.rowMove (r : AppRow) : Option Move := do
  let s ← src.posted? r.paymentId
  let i ← src.posted? r.invoiceId
  if r.voided = false ∧ r.appliedDate.getD s.txnDate ≤ q.asOf ∧ s.txnDate ≤ q.asOf ∧
      i.txnDate ≤ q.asOf ∧ src.stands q r then
    some ⟨r.paymentId, r.invoiceId, r.settledBy⟩
  else none

/-- A payment from before there were rows points to its invoice. -/
def Source.pointerMove (t : Txn) : Option Move := do
  let invoiceId ← t.appliedToInvoiceId
  let i ← src.posted? invoiceId
  if t.txnType = .customerPayment ∧ t.status = .posted ∧ t.txnDate ≤ q.asOf ∧ i.txnDate ≤ q.asOf ∧
      ∀ r ∈ src.rows, r.paymentId ≠ t.id then
    some ⟨t.id, invoiceId, t.total⟩
  else none

def Recovery.ends (r : Recovery) : Id × Id := (r.recoveryTxnId, r.invoiceId)

/-- A recovery opens its invoice again. -/
def Source.recoveryMove (ends : Id × Id) : Option Move := do
  let s ← src.posted? ends.1
  let i ← src.posted? ends.2
  if s.txnDate ≤ q.asOf ∧ i.txnDate ≤ q.asOf then
    some ⟨ends.1, ends.2, -tally (fun r => r.ends = ends) Recovery.amount src.recoveries⟩
  else none

/-- The rows of the second query, which come in no order. -/
def Source.moves : List Move :=
  src.rows.filterMap (src.rowMove q) ++ src.txns.filterMap (src.pointerMove q) ++
    (src.recoveries.map Recovery.ends).dedup.filterMap (src.recoveryMove q)

end Moves

/-- The item of a transaction: the one of its own client, else the first. -/
def byTxn (items : List Work) (i : Id) : Option Key :=
  (items.foldl (fun (prev : Option Work) w =>
    if w.txnId = i ∧ prev.all fun p => w.contactId = w.txnContactId ∧ p.contactId ≠ w.txnContactId
    then some w else prev) none).map Work.key

/-- The items a move goes from and to: two of one client where there are such. -/
def moveEnds (items : List Work) (m : Move) : Option (Key × Key) := do
  let src ← byTxn items m.sourceId
  let inv ← byTxn items m.invoiceId
  if src.1 = inv.1 then some (src, inv)
  else if (src.1, inv.2) ∈ items.map Work.key then some (src, (src.1, inv.2))
  else if (inv.1, src.2) ∈ items.map Work.key then some ((inv.1, src.2), inv)
  else some (src, inv)

def addOpen (k : Key) (d : Dec) (items : List Work) : List Work :=
  items.map fun w => if w.key = k then { w with openAmount := w.openAmount + d } else w

/-- Only the ends are found in `items`; what is open changes from move to move. -/
def applyMove (items now : List Work) (m : Move) : List Work :=
  (moveEnds items m).elim now fun ends =>
    addOpen ends.1 m.settled (addOpen ends.2 (-m.settled) now)

/-! ## What is shown together -/

def drop (k : Key) (items : List Work) : List Work := items.filter fun w => w.key ≠ k

def Work.refundOf (items : List Work) (w : Work) : Option Key :=
  (w.sourcePaymentId.or w.appliedToInvoiceId).bind (byTxn items)

/-- A refund is shown with what it pays out. -/
def netRefund (items now : List Work) (k : Key) : List Work :=
  (now.find? fun w => w.key = k).elim now fun w =>
    if w.txnType = .customerRefund then
      (w.refundOf items).elim now fun target =>
        if target ≠ w.key ∧ target.1 = w.contactId ∧ target ∈ now.map Work.key then
          drop w.key (addOpen target w.openAmount now)
        else now
    else now

/-- A bounce, the payment that bounced and the draws on it. -/
def Work.bounceGroup (w : Work) (sourceTxnId : Id) (x : Work) : Bool :=
  x.contactId = w.contactId ∧ (x.key = w.key ∨ x.txnId = sourceTxnId ∨
    (x.txnType = .customerPayment ∧ x.fromDepositId = some sourceTxnId))

def netBounce (now : List Work) (w : Work) : List Work :=
  if w.txnType = .returnedPayment then
    w.sourceTxnId.elim now fun i =>
      let group := now.filter (w.bounceGroup i)
      if 1 < group.length ∧ (group.map Work.openAmount).sum = 0 then
        now.filter fun x => !w.bounceGroup i x
      else now
  else now

inductive OpenItemKind where
  | invoice | credit | charge | other
  deriving DecidableEq, Repr

def kindOf (txnType : TxnType) (openAmount : Dec) : OpenItemKind :=
  match txnType with
  | .invoice => .invoice
  | .creditMemo | .customerPayment => .credit
  | .returnedPayment | .customerRefund | .badDebtRecovery => .charge
  | _ => if openAmount < 0 then .credit else .other

structure OpenItem where
  contactId : Option Id
  txnId : Id
  txnType : TxnType
  number : Option String
  date : String
  dueDate : Option String
  original : Dec
  openCents : Dec
  openExact : Dec
  kind : OpenItemKind
  isFinanceCharge : Bool
  deriving DecidableEq, Repr

def Source.tagged (src : Source) (q : OpenItemsQuery) (i : Id) : Bool :=
  src.txns.any fun t => t.id = i ∧ ∃ tag ∈ t.tagIds, tag ∈ q.tagIds

/-- An item as shown, if it is: not when it comes to nothing in cents. -/
def Source.shown (src : Source) (q : OpenItemsQuery) (w : Work) : Option OpenItem :=
  if (q.tagIds ≠ [] ∧ src.tagged q w.txnId = false) ∨ round2 w.openAmount = 0 then none
  else some
    { contactId := w.contactId
      txnId := w.txnId
      txnType := w.txnType
      number := w.number
      date := w.date
      dueDate := w.dueDate
      original := round2 w.original
      openCents := round2 w.openAmount
      openExact := round4 w.openAmount
      kind := kindOf w.txnType w.openAmount
      isFinanceCharge := w.isFinanceCharge }

/-- By client, date, number and id, as `localeCompare` orders texts. -/
def OpenItem.before (collate : String → String → Ordering) (a b : OpenItem) : Prop :=
  ((collate (a.contactId.getD "") (b.contactId.getD "")).then
    ((collate a.date b.date).then
      ((collate (a.number.getD "") (b.number.getD "")).then (collate a.txnId b.txnId)))).isLE

instance (collate : String → String → Ordering) : DecidableRel (OpenItem.before collate) :=
  fun _ _ => inferInstanceAs (Decidable (_ = true))

/-- The items left after the moves and the netting. -/
def netted (items : List Work) (moves : List Move) : List Work :=
  let moved := moves.foldl (applyMove items) items
  let refunded := (moved.map Work.key).foldl (netRefund items) moved
  refunded.foldl netBounce refunded

/-- The report over the rows of its two queries. -/
def arOpenItemsAsOf (collate : String → String → Ordering) (src : Source) (q : OpenItemsQuery)
    (items : List Work) (moves : List Move) : List OpenItem :=
  ((netted items moves).filterMap (src.shown q)).insertionSort (OpenItem.before collate)

/-! ## Ages -/

inductive AgingBucketKey where
  | current | days1to30 | days31to60 | days61to90 | over90
  deriving DecidableEq, Repr

def AgingBucketKey.all : List AgingBucketKey :=
  [.current, .days1to30, .days31to60, .days61to90, .over90]

/-- `Date.parse` in days; none is `NaN`. -/
def parseDay (s : String) : Option ℤ :=
  (parseIsoDate s.toList).toOption.map fun d => dayNumber d.y d.m d.d

def daysBetween (start stop : String) : Option ℤ := do
  let a ← parseDay start
  let b ← parseDay stop
  some (b - a)

/-- No comparison holds of `NaN`. -/
def bucketFor (days : Option ℤ) : AgingBucketKey :=
  days.elim .over90 fun days =>
    if days ≤ 0 then .current
    else if days ≤ 30 then .days1to30
    else if days ≤ 60 then .days31to60
    else if days ≤ 90 then .days61to90
    else .over90

structure AgedItem extends OpenItem where
  days : Option ℤ
  bucket : AgingBucketKey

structure Aging where
  items : List AgedItem
  buckets : AgingBucketKey → Dec
  total : Dec
  totalExact : Dec
  difference : Dec

def age (asOf : String) (it : OpenItem) : AgedItem :=
  let days := daysBetween (it.dueDate.getD it.date) asOf
  { it with days, bucket := bucketFor days }

def ageOpenItems (items : List OpenItem) (asOf : String) : Aging :=
  let aged := items.map (age asOf)
  let sums := fun b => tally (fun it => it.bucket = b) (fun it => it.openCents) aged
  let exact := (aged.map fun it => it.openExact).sum
  let total := (AgingBucketKey.all.map sums).sum
  { items := aged
    buckets := fun b => round2 (sums b)
    total := round2 total
    totalExact := round4 exact
    difference := round2 (round2 exact - total) }

end OpenItems

end MyBooks
