import MyBooks.Reconciliation

/-!
# The posting paths of the ledger

`postTransaction`, `updateTransaction`, `voidTransaction`, `deleteTransaction` and
`bulkUpdateTransactions`, each on the books and the reconciliations it finds. What other services
check first can only refuse (`Refusal`), and what the costing walk decides comes in as `Costing`;
the ids of new rows come with the call and are refused when they are taken.
-/

namespace MyBooks

inductive LedgerError where
  | unbalanced (debits credits : Dec)
  | noAmount
  | notFound
  | alreadyVoid
  | voidUpdate
  | alreadyDeleted
  | ajeRoute
  | deleteUnsupported
  | clearedInCompleted
  | editUnsupported
  | inventoryDocument
  | reconciledLineChanged
  | badMove
  | controlMove
  /-- A check of another service. -/
  | refused (code : String)
  /-- A new row's key is taken, or an amount does not fit its column. -/
  | storage
  deriving DecidableEq, Repr

def LedgerError.code : LedgerError → Option String
  | .alreadyDeleted => some "TXN_ALREADY_DELETED"
  | .ajeRoute => some "TB_AJE_ROUTE"
  | .deleteUnsupported => some "TXN_DELETE_UNSUPPORTED"
  | .clearedInCompleted => some "RECONCILED_TRANSACTION"
  | .editUnsupported => some "TXN_EDIT_UNSUPPORTED"
  | .inventoryDocument => some "INVENTORY_DOCUMENT"
  | .refused code => some code
  | _ => none

/-- The checks of other services on a call: the closing date, the accounts in scope, deposits,
bills and invoices with something applied, billed lines. -/
abbrev Refusal := Option String

def refuse : Refusal → Except LedgerError Unit
  | none => .ok ()
  | some code => .error (.refused code)

structure Store where
  books : Books
  recs : Recs

/-- A line as a caller sends it, with the id its row gets. -/
structure LineInput where
  id : Id
  accountId : Id
  debit : Dec
  credit : Dec
  tagId : Option Id
  deriving DecidableEq, Repr

def LineInput.entry (l : LineInput) : Entry := ⟨l.accountId, l.debit, l.credit⟩

/-- The line as it is stored. -/
def LineInput.stored (t : Id) (l : LineInput) : JournalLine :=
  ⟨l.id, t, l.accountId, round4 l.debit, round4 l.credit, l.tagId, false, false, false⟩

structure PostInput where
  txnType : TxnType
  txnDate : String
  status : Option TxnStatus
  contactId : Option Id
  lines : List LineInput

/-- Debits must equal credits exactly, at the scale the ledger stores. -/
def assertBalanced (lines : List LineInput) : Except LedgerError (Dec × Dec) :=
  let debits := lines.foldl (fun acc l => plus acc (round4 l.debit)) 0
  let credits := lines.foldl (fun acc l => plus acc (round4 l.credit)) 0
  if debits ≠ credits then .error (.unbalanced debits credits) else .ok (debits, credits)

/-- The rows can be inserted: new keys, and amounts their columns hold. -/
def Books.insertable (b : Books) (new : List JournalLine) : Bool :=
  (new.map (·.id)).Nodup ∧ (∀ l ∈ new, ∀ l' ∈ b.lines, l'.id ≠ l.id) ∧ ∀ l ∈ new, l.fits

section Costing

/-- The derived lines the costing walk wants gone, at new amounts, and new. -/
structure Costing where
  delete : List Id
  update : List (Id × Dec × Dec)
  insert : List JournalLine

def Books.isPosted (b : Books) (t : Id) : Bool := b.status t = some .posted

/-- The walk rewrites derived lines of posted documents only. -/
def Books.rewrites (b : Books) (l : JournalLine) : Bool :=
  l.derived ∧ ¬l.isVoidReversal ∧ b.isPosted l.transactionId

def Costing.deletes (c : Costing) (b : Books) (l : JournalLine) : Bool :=
  l.id ∈ c.delete ∧ b.rewrites l

/-- The new amounts of a line, where the walk gives it some. -/
def Costing.amounts (c : Costing) (b : Books) (l : JournalLine) : Option (Dec × Dec) :=
  if b.rewrites l ∧ l.id ∉ c.delete then (c.update.find? (fun u => u.1 = l.id)).map (·.2) else none

def Costing.rewritten (c : Costing) (b : Books) (l : JournalLine) : JournalLine :=
  match c.amounts b l with
  | some (debit, credit) => { l with debit := round4 debit, credit := round4 credit }
  | none => l

def Costing.inserted (c : Costing) (b : Books) : List JournalLine :=
  (c.insert.filter b.rewrites).map fun l =>
    { l with debit := round4 l.debit, credit := round4 l.credit }

/-- What the rewrite of the lines adds to account `a`. -/
def Costing.delta (c : Costing) (b : Books) (a : Id) : Dec :=
  ((b.lines.filter (fun l => l.accountId = a)).map fun l =>
    if c.deletes b l then l.credit - l.debit
    else ((c.rewritten b l).debit - (c.rewritten b l).credit) - (l.debit - l.credit)).sum +
  (((c.inserted b).filter (fun l => l.accountId = a)).map (fun l => l.debit - l.credit)).sum

def applyCosting (b : Books) (c : Costing) : Except LedgerError Books :=
  if b.insertable (c.inserted b) ∧ ∀ l ∈ b.lines, (c.rewritten b l).fits then
    .ok { b with
      lines := (b.lines.filter (fun l => ¬c.deletes b l)).map (c.rewritten b) ++ c.inserted b
      balance := fun a =>
        updateAccountBalances b.balance [⟨a, round4 (c.delta b a), 0⟩] a }
  else .error .storage

/-- Stock moves only where the posting holds the costing lock. -/
def costed (b : Books) : Option Costing → Except LedgerError Books
  | none => .ok b
  | some c => applyCosting b c

end Costing

def postTransaction (s : Store) (t : Id) (input : PostInput) (refusal : Refusal)
    (costing : Option Costing) : Except LedgerError Store := do
  let (debits, credits) ← assertBalanced input.lines
  if debits = 0 ∧ credits = 0 ∧ costing.isNone then .error .noAmount
  else
    refuse refusal
    let new := input.lines.map (LineInput.stored t)
    if (s.books.txns t).isSome ∨ ¬s.books.insertable new then .error .storage
    else
      let status := input.status.getD .posted
      let b := (s.books.setTxn t ⟨input.txnType, status, input.txnDate, input.contactId⟩).addLines new
      if status = .posted then
        let b ← costed (b.post (input.lines.map LineInput.entry)) costing
        return { s with books := b }
      else
        return { s with books := b }

/-- Some line of the transaction is cleared in a completed reconciliation. -/
def Store.reconciled (s : Store) (t : Id) : Bool :=
  (s.books.linesOf t).any fun l => s.recs.clearedIn none l.id

/-- The reversals of `lines`, with the ids `ids`. -/
def reversals (t : Id) (lines : List JournalLine) (ids : List Id) : List JournalLine :=
  List.zipWith (fun l i => ⟨i, t, l.accountId, l.credit, l.debit, l.tagId, false, true, false⟩)
    lines ids

/-- The lines a void reverses. -/
def Books.voidedLines (b : Books) (t : Id) (txn : Txn) : List JournalLine :=
  if txn.txnType = .billPayment then (b.linesOf t).filter (fun l => ¬l.isVoidReversal)
  else b.linesOf t

/-- The document's own part of a void. What it takes with it (a journal entry's reversal, a
payment's draws) are voids of their own in the same unit. -/
def voidTransaction (s : Store) (t : Id) (ids : List Id) (refusal : Refusal)
    (costing : Option Costing) : Except LedgerError Store :=
  match s.books.txns t with
  | none => .error .notFound
  | some txn =>
    if txn.status = .deleted then .error .notFound
    else if txn.status = .void then .error .alreadyVoid
    else do
      refuse refusal
      if s.reconciled t then .error .clearedInCompleted
      else
        let original := s.books.voidedLines t txn
        let new := reversals t original ids
        if ids.length ≠ original.length ∨ ¬s.books.insertable new then .error .storage
        else
          let b := (s.books.setStatus t .void).addLines new
          if txn.txnType = .billPayment then
            -- a bill payment's own void moves the balances line by line
            return { s with books := original.foldl (fun b l => b.post [l.reversed]) b }
          else
            let b ← costed (b.post (original.map JournalLine.reversed)) costing
            return { s with books := b }

def deletableTypes : List TxnType :=
  [.journalEntry, .expense, .transfer, .deposit, .cashSale, .bill, .vendorCredit,
    .inventoryAdjustment]

/-- Nothing is removed: a posted document is reversed, and the header is marked. -/
def deleteTransaction (s : Store) (t : Id) (ids : List Id) (refusal : Refusal)
    (costing : Option Costing) : Except LedgerError Store :=
  match s.books.txns t with
  | none => .error .notFound
  | some txn =>
    if txn.status = .deleted then .error .alreadyDeleted
    else if txn.txnType = .aje then .error .ajeRoute
    else if txn.txnType ∉ deletableTypes then .error .deleteUnsupported
    else do
      refuse refusal
      if s.reconciled t then .error .clearedInCompleted
      else
        let original := if txn.status = .posted then s.books.linesOf t else []
        let new := reversals t original ids
        if ids.length ≠ original.length ∨ ¬s.books.insertable new then .error .storage
        else
          let b := (s.books.setStatus t .deleted).addLines new
          let b ← costed (b.post (original.map JournalLine.reversed)) costing
          return { s with books := b }

section Update

def Books.isBalanceSheet (b : Books) (a : Id) : Bool :=
  (b.accounts a).any fun acct =>
    acct.accountType = .asset ∨ acct.accountType = .liability ∨ acct.accountType = .equity

/-- An input line that leaves the stored line as it is. -/
def keeps (l : JournalLine) (i : LineInput) : Bool :=
  i.accountId = l.accountId ∧ round4 i.debit = l.debit ∧ round4 i.credit = l.credit

/-- The first input line that keeps `l`, and the others. -/
def takeMatch (l : JournalLine) : List LineInput → Option (LineInput × List LineInput)
  | [] => none
  | i :: is =>
    if keeps l i then some (i, is)
    else (takeMatch l is).map fun r => (r.1, i :: r.2)

/-- Matches each line to keep with an input line of its own; the rest is left over. -/
def matchLines : List JournalLine → List LineInput →
    Option (List (JournalLine × LineInput) × List LineInput)
  | [], is => some ([], is)
  | l :: ls, is =>
    match takeMatch l is with
    | none => none
    | some (i, rest) => (matchLines ls rest).map fun r => ((l, i) :: r.1, r.2)

/-- The document's own lines: those a partial edit keeps, and those it replaces. -/
def Books.editable (b : Books) (t : Id) : List JournalLine :=
  (b.linesOf t).filter fun l => ¬l.isVoidReversal

def Books.balanceSheetLines (b : Books) (t : Id) : List JournalLine :=
  (b.editable t).filter fun l => b.isBalanceSheet l.accountId

def Books.replacedLines (b : Books) (t : Id) : List JournalLine :=
  (b.editable t).filter fun l => ¬b.isBalanceSheet l.accountId

/-- The input lines that replace the others, when the balance-sheet lines and the date stay put. -/
def partialEdit (b : Books) (t : Id) (oldDate : String) (input : PostInput) :
    Option (List (JournalLine × LineInput) × List LineInput) :=
  if oldDate ≠ input.txnDate then none
  else
    (matchLines (b.balanceSheetLines t) input.lines).filter fun r =>
      r.2.all fun l => ¬b.isBalanceSheet l.accountId

/-- The kept line with the tag of its input line. -/
def retag (kept : List (JournalLine × LineInput)) (l : JournalLine) : JournalLine :=
  match kept.find? (fun p => p.1.id = l.id) with
  | some p => { l with tagId := p.2.tagId }
  | none => l

/-- Replaces the lines with ids `old` by `new` and re-tags those kept. -/
def Books.editLines (b : Books) (t : Id) (kept : List (JournalLine × LineInput))
    (old : List Id) (new : List LineInput) : Books :=
  { b with lines := (b.lines.filter (fun l => l.id ∉ old)).map (retag kept) ++
      new.map (LineInput.stored t) }

/-- An edit of a reconciled transaction: the lines it keeps are re-tagged, the others replaced. -/
def updateReconciled (s : Store) (t : Id) (txn : Txn) (input : PostInput) :
    Except LedgerError Store :=
  match partialEdit s.books t txn.txnDate input with
  | none => .error .reconciledLineChanged
  | some (kept, new) =>
    if ¬s.books.insertable (new.map (LineInput.stored t)) then .error .storage
    else
      let old := s.books.replacedLines t
      let b := s.books.post (old.map JournalLine.reversed)
      let b := b.editLines t kept (old.map JournalLine.id) new
      let b := b.post (new.map LineInput.entry)
      .ok { s with books := b.setTxn t { txn with contactId := input.contactId } }

/-- A full edit replaces every line of the document. -/
def updateFull (s : Store) (t : Id) (txn : Txn) (input : PostInput) (costing : Option Costing) :
    Except LedgerError Store :=
  let new := input.lines.map (LineInput.stored t)
  if ¬s.books.insertable new then .error .storage
  else
    let posted := txn.status = .posted
    let b := if posted then s.books.post ((s.books.linesOf t).map JournalLine.reversed) else s.books
    let b := (b.dropLines t).setTxn t
      { txn with txnDate := input.txnDate, contactId := input.contactId }
    let b := b.addLines new
    if posted then do
      let b ← costed (b.post (input.lines.map LineInput.entry)) costing
      return { s with books := b }
    else return { s with books := b }

def apDocumentTypes : List TxnType := [.bill, .vendorCredit, .billPayment]

def updateTransaction (s : Store) (t : Id) (input : PostInput) (apDocumentEdit : Bool)
    (refusal : Refusal) (costing : Option Costing) : Except LedgerError Store := do
  let _ ← assertBalanced input.lines
  match s.books.txns t with
  | none => .error .notFound
  | some txn =>
    if txn.status = .deleted then .error .notFound
    else if txn.status = .void then .error .voidUpdate
    else if txn.txnType ∈ apDocumentTypes ∧
        (apDocumentEdit = false ∨ txn.txnType = .billPayment ∨ input.txnType ≠ txn.txnType) then
      .error .editUnsupported
    else if txn.txnType = .salesTaxPayment ∨ input.txnType = .salesTaxPayment ∨
        txn.txnType = .badDebtRecovery ∨ input.txnType = .badDebtRecovery then
      .error .editUnsupported
    else
      refuse refusal
      if s.reconciled t then
        if costing.isSome then .error .inventoryDocument
        else updateReconciled s t txn input
      else updateFull s t txn input costing

end Update

section Bulk

structure BulkInput where
  txnIds : List Id
  setPayeeContactId : Option (Option Id)
  setCategoryAccountId : Option Id
  setTagId : Option (Option Id)
  tagAccountId : Option Id
  moveFromAccountId : Option Id
  moveToAccountId : Option Id

/-- What bulk edits read elsewhere: the company's documents, the closing dates, the sales tax links
and the stock. -/
structure BulkFacts where
  inCompany : Id → Bool
  locked : Id → Bool
  salesTaxLinked : Id → Bool
  touchesInventory : Id → Bool

/-- A money or control account is never a transaction's category. -/
def Account.isCategory (a : Account) : Bool :=
  (a.detailType ≠ some .bank ∧ a.detailType ≠ some .accountsReceivable ∧
    a.detailType ≠ some .accountsPayable ∧ a.detailType ≠ some .creditCard) ∧
  (a.systemTag ≠ some .paymentsClearing ∧ a.systemTag ≠ some .undepositedFunds ∧
    a.systemTag ≠ some .salesTaxPayable)

def Books.categoryLines (b : Books) (t : Id) : List JournalLine :=
  (b.linesOf t).filter fun l => (b.accounts l.accountId).any Account.isCategory

def Books.setAccount (b : Books) (ids : List Id) (a : Id) : Books :=
  { b with lines := b.lines.map fun l => if l.id ∈ ids then { l with accountId := a } else l }

/-- The transaction as the bulk edit has changed it so far, and whether it has. -/
structure BulkState where
  books : Books
  changed : Bool

inductive BulkStep where
  | go (st : BulkState)
  | skip (reason : String)

/-- Moves the transaction's single category line; a billed line and a split stay. -/
def bulkCategory (st : BulkState) (t : Id) (posted : Bool) (input : BulkInput) : BulkStep :=
  match input.setCategoryAccountId with
  | none => .go st
  | some a =>
    let sole := input.setPayeeContactId.isNone ∧ input.setTagId.isNone
    match st.books.categoryLines t with
    | [l] =>
      if l.billed ∧ l.accountId ≠ a then
        if sole then .skip "billed" else .go st
      else if l.accountId = a then .go { st with changed := true }
      else
        let b := if posted then
            (st.books.post [l.reversed]).post [⟨a, l.debit, l.credit⟩]
          else st.books
        .go ⟨b.setAccount [l.id] a, true⟩
    | [] => if sole then .skip "no_category_line" else .go st
    | _ :: _ :: _ => if sole then .skip "split" else .go st

/-- Moves every line on the one account to the other, unless one of them is reconciled. -/
def bulkMove (st : BulkState) (recs : Recs) (t : Id) (posted : Bool) (input : BulkInput) :
    BulkStep :=
  match input.moveFromAccountId, input.moveToAccountId with
  | some source, some target =>
    let sole := input.setPayeeContactId.isNone ∧ input.setCategoryAccountId.isNone ∧
      input.setTagId.isNone
    let lines := (st.books.linesOf t).filter fun l => l.accountId = source
    if lines = [] then
      if sole then .skip "no_line_on_account" else .go st
    else if lines.any fun l => recs.clearedIn none l.id then
      if sole then .skip "reconciled" else .go st
    else
      let d := round4 (lines.foldl (fun acc l => plus acc l.debit) 0)
      let c := round4 (lines.foldl (fun acc l => plus acc l.credit) 0)
      let b := if posted then
          (st.books.post [⟨source, c, d⟩]).post [⟨target, d, c⟩]
        else st.books
      .go ⟨b.setAccount (lines.map (·.id)) target, true⟩
  | _, _ => .go st

def bulkTag (st : BulkState) (t : Id) (input : BulkInput) : BulkState :=
  match input.setTagId with
  | none => st
  | some tag =>
    let tags (l : JournalLine) : Bool :=
      l.transactionId = t ∧ (input.tagAccountId = none ∨ input.tagAccountId = some l.accountId)
    { books := { st.books with
        lines := st.books.lines.map fun l => if tags l then { l with tagId := tag } else l }
      changed := st.changed ∨ st.books.lines.any tags }

def bulkPayee (b : Books) (t : Id) (txn : Txn) (input : BulkInput) : BulkState :=
  match input.setPayeeContactId with
  | none => ⟨b, false⟩
  | some contact => ⟨b.setTxn t { txn with contactId := contact }, true⟩

structure BulkResult where
  updated : ℕ
  skipped : List (Id × String)

/-- Why the transaction is left out, if it is. -/
def bulkCheck (input : BulkInput) (facts : BulkFacts) (t : Id) (txn : Txn) :
    Except LedgerError (Option String) :=
  let moves := input.setCategoryAccountId.isSome ∨ input.moveToAccountId.isSome
  if facts.inCompany t = false ∨ txn.status = .deleted then .ok (some "not_found")
  else if txn.status = .void then .ok (some "void")
  else if txn.txnType = .aje then .ok (some "aje")
  else if txn.txnType ∈ apDocumentTypes then .ok (some "ap_document")
  else if moves ∧ facts.salesTaxLinked t then .ok (some "sales_tax_linked")
  else if moves ∧ facts.touchesInventory t then .error .inventoryDocument
  else if facts.locked t then .ok (some "locked")
  else .ok none

/-- One transaction of the batch. A skip after a payee change keeps the change. -/
def bulkOne (recs : Recs) (input : BulkInput) (facts : BulkFacts) (b : Books) (t : Id) :
    Except LedgerError (Books × Option String) :=
  match b.txns t with
  | none => .ok (b, some "not_found")
  | some txn =>
    match bulkCheck input facts t txn with
    | .error e => .error e
    | .ok (some reason) => .ok (b, some reason)
    | .ok none =>
      let posted := txn.status = .posted
      match bulkCategory (bulkPayee b t txn input) t posted input with
      | .skip reason => .ok ((bulkPayee b t txn input).books, some reason)
      | .go st =>
        match bulkMove st recs t posted input with
        | .skip reason => .ok (st.books, some reason)
        | .go st =>
          let st := bulkTag st t input
          .ok (st.books, if st.changed then none else some "no_change")

def bulkAll (recs : Recs) (input : BulkInput) (facts : BulkFacts) :
    Books → List Id → Except LedgerError (Books × BulkResult)
  | b, [] => .ok (b, ⟨0, []⟩)
  | b, t :: ts => do
    let (b, skipped) ← bulkOne recs input facts b t
    let (b, r) ← bulkAll recs input facts b ts
    return match skipped with
      | none => (b, ⟨r.updated + 1, r.skipped⟩)
      | some reason => (b, ⟨r.updated, (t, reason) :: r.skipped⟩)

def Books.isControl (b : Books) (a : Option Id) : Bool :=
  (a.bind b.accounts).any fun acct =>
    acct.detailType = some .accountsReceivable ∨ acct.detailType = some .accountsPayable

def bulkUpdateTransactions (s : Store) (input : BulkInput) (facts : BulkFacts)
    (refusal : Refusal) : Except LedgerError (Store × BulkResult) := do
  refuse refusal
  if input.moveToAccountId.isSome ∧ (input.moveFromAccountId.isNone ∨
      input.moveFromAccountId = input.moveToAccountId) then .error .badMove
  else if input.moveToAccountId.isSome ∧ (s.books.isControl input.moveFromAccountId ∨
      s.books.isControl input.moveToAccountId) then .error .controlMove
  else
    let (b, r) ← bulkAll s.recs input facts s.books input.txnIds
    return ({ s with books := b }, r)

end Bulk

end MyBooks
