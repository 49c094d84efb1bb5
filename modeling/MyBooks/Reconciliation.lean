import MyBooks.Books
import MyBooks.Result

/-!
# Bank reconciliations

A reconciliation of an account has a worksheet of journal lines, some of them cleared. `start` puts
the posted lines up to the statement date on it that no completed reconciliation of the account has
cleared, `refreshLines` brings it up to date, `updateLines` and `autoClearStatement` clear lines,
`complete` closes it when it ties out, `undo` reopens it and `cancel` discards it.
-/

namespace MyBooks

inductive RecStatus where
  | inProgress | complete
  deriving DecidableEq, Repr

structure Reconciliation where
  id : Id
  accountId : Id
  statementDate : String
  statementEndingBalance : Dec
  beginningBalance : Dec
  status : RecStatus
  clearedBalance : Option Dec
  difference : Option Dec
  deriving DecidableEq, Repr

/-- A worksheet row. -/
structure RecLine where
  reconciliationId : Id
  journalLineId : Id
  isCleared : Bool
  deriving DecidableEq, Repr

structure BankStatement where
  id : Id
  accountId : Id
  periodEnd : String
  openingBalance : Option Dec
  closingBalance : Option Dec
  reconciliationId : Option Id
  deriving DecidableEq, Repr

structure BankFeedItem where
  id : Id
  statementId : Id
  matchedTransactionId : Option Id
  deriving DecidableEq, Repr

structure Recs where
  headers : List Reconciliation
  rows : List RecLine
  statements : List BankStatement
  feed : List BankFeedItem

inductive RecError where
  | statementNotFound
  | statementAlreadyReconciled (complete : Bool)
  | missingInput
  | inProgress
  | notFound
  | alreadyComplete
  | notLinked
  | difference (d : Dec)
  | notComplete
  | notLatest
  | completeNotCanceled
  /-- The key exists, or the query can not have answered so. -/
  | storage
  deriving DecidableEq, Repr

def RecError.code : RecError → Option String
  | .statementAlreadyReconciled _ => some "STATEMENT_ALREADY_RECONCILED"
  | .inProgress => some "RECONCILIATION_IN_PROGRESS"
  | _ => none

namespace Recs

variable (r : Recs)

def find (recId : Id) : Option Reconciliation := r.headers.find? (fun h => h.id = recId)

/-- The row belongs to a completed reconciliation, of `acct` if one is given. -/
def rowComplete (acct : Option Id) (row : RecLine) : Bool :=
  r.headers.any fun h =>
    h.id = row.reconciliationId ∧ h.status = .complete ∧ (acct = none ∨ acct = some h.accountId)

/-- The journal line is cleared in a completed reconciliation, of `acct` if one is given. -/
def clearedIn (acct : Option Id) (line : Id) : Bool :=
  r.rows.any fun row => row.journalLineId = line ∧ row.isCleared ∧ r.rowComplete acct row

/-- A completed reconciliation of `acct` that none of its others is dated after. The query takes
one of them; which one of equal dates is left open. -/
def isLatest (acct recId : Id) : Bool :=
  r.headers.any fun h => h.id = recId ∧ h.accountId = acct ∧ h.status = .complete ∧
    r.headers.all fun h' =>
      h'.accountId = acct ∧ h'.status = .complete → h'.statementDate ≤ h.statementDate

/-- An answer of the query for the latest completed reconciliation of `acct`. -/
def latestAnswer (acct : Id) : Option Id → Bool
  | some recId => r.isLatest acct recId
  | none => r.headers.all fun h => ¬(h.accountId = acct ∧ h.status = .complete)

def setHeader (recId : Id) (f : Reconciliation → Reconciliation) : Recs :=
  { r with headers := r.headers.map fun h => if h.id = recId then f h else h }

/-- Changes the rows of one worksheet. -/
def mapRows (recId : Id) (f : RecLine → RecLine) : Recs :=
  { r with rows := r.rows.map fun row => if row.reconciliationId = recId then f row else row }

def addRows (recId : Id) (lines : List Id) : Recs :=
  { r with rows := r.rows ++ lines.map fun l => ⟨recId, l, false⟩ }

end Recs

/-- The lines of the account that belong to posted transactions dated up to `date` and are not
cleared in a completed reconciliation of the account. -/
def eligible (b : Books) (r : Recs) (acct : Id) (date : String) : List Id :=
  (b.lines.filter fun l =>
    l.accountId = acct ∧ (b.txns l.transactionId).any (fun t => t.status = .posted ∧ t.txnDate ≤ date) ∧
      ¬r.clearedIn (some acct) l.id).map (·.id)

/-- Bank statements print liabilities as positive amounts owed. -/
def glOrientedStatementBalance (value : Option Dec) (accountType : Option AccountType) :
    Option Dec :=
  if accountType = some .liability then value.map (fun v => -v) else value

structure StartInput where
  /-- The id the new reconciliation gets. -/
  id : Id
  accountId : Option Id
  statementDate : Option String
  statementEndingBalance : Option Dec
  statementId : Option Id
  /-- What the query for the latest completed reconciliation answers. -/
  latest : Option Id

structure StartTarget where
  accountId : Id
  statementDate : String
  endingBalance : Dec
  deriving DecidableEq, Repr

/-- The account, date and ending balance `start` works with: the statement's, else those given. -/
def startTarget (b : Books) (r : Recs) (input : StartInput) : Except RecError StartTarget :=
  match input.statementId with
  | some sid =>
    match r.statements.find? (fun s => s.id = sid) with
    | none => .error .statementNotFound
    | some st =>
      match st.reconciliationId.bind r.find with
      | some h => .error (.statementAlreadyReconciled (h.status = .complete))
      | none =>
        match glOrientedStatementBalance st.closingBalance
            ((b.accounts st.accountId).map (·.accountType)) with
        | none => .error .missingInput
        | some ending => .ok ⟨st.accountId, st.periodEnd, ending⟩
  | none =>
    match input.accountId, input.statementDate, input.statementEndingBalance with
    | some acct, some date, some ending =>
      .ok ⟨acct, date,
        (glOrientedStatementBalance (some ending) ((b.accounts acct).map (·.accountType))).getD
          ending⟩
    | _, _, _ => .error .missingInput

def start (b : Books) (r : Recs) (input : StartInput) : Except RecError Recs := do
  let target ← startTarget b r input
  if r.headers.any (fun h => h.accountId = target.accountId ∧ h.status = .inProgress) then
    .error .inProgress
  else if r.latestAnswer target.accountId input.latest = false ∨ (r.find input.id).isSome then
    .error .storage
  else
    let beginning := ((input.latest.bind r.find).map (·.statementEndingBalance)).getD 0
    let created : Reconciliation := ⟨input.id, target.accountId, target.statementDate,
      target.endingBalance, beginning, .inProgress, none, none⟩
    let worksheet := eligible b r target.accountId target.statementDate
    return {
      headers := r.headers ++ [created]
      rows := r.rows ++ worksheet.map fun l => ⟨input.id, l, false⟩
      statements := r.statements.map fun s =>
        if some s.id = input.statementId then { s with reconciliationId := some input.id } else s
      feed := r.feed }

/-- The open reconciliation `recId`. -/
def openRec (r : Recs) (recId : Id) : Except RecError Reconciliation :=
  match r.find recId with
  | none => .error .notFound
  | some h => if h.status = .complete then .error .alreadyComplete else .ok h

/-- Rows of transactions that are no longer posted go, and eligible lines not yet there come. -/
def refreshLines (b : Books) (r : Recs) (recId : Id) : Except RecError Recs := do
  let h ← openRec r recId
  let kept := r.rows.filter fun row =>
    ¬(row.reconciliationId = recId ∧
      b.lines.any (fun l => l.id = row.journalLineId ∧
        (b.txns l.transactionId).any (fun t => t.status ≠ .posted)))
  let r' : Recs := { r with rows := kept }
  let onSheet := (kept.filter fun row => row.reconciliationId = recId).map (·.journalLineId)
  return r'.addRows recId
    ((eligible b r' h.accountId h.statementDate).filter fun l => l ∉ onSheet)

/-- Marks the worksheet's uncleared lines that the statement's matched transactions posted to the
account. -/
def autoClearStatement (b : Books) (r : Recs) (recId : Id) : Except RecError Recs := do
  let h ← openRec r recId
  match r.statements.find? (fun s => s.reconciliationId = some recId) with
  | none => .error .notLinked
  | some st =>
    let items := r.feed.filter fun i => i.statementId = st.id
    let matched (line : Id) : Bool := b.lines.any fun l =>
      l.id = line ∧ l.accountId = h.accountId ∧
        items.any fun i => i.matchedTransactionId = some l.transactionId
    return r.mapRows recId fun row =>
      if matched row.journalLineId then { row with isCleared := true } else row

structure LineUpdate where
  journalLineId : Id
  isCleared : Bool
  deriving DecidableEq, Repr

def updateLine (recId : Id) (r : Recs) (u : LineUpdate) : Recs :=
  r.mapRows recId fun row =>
    if row.journalLineId = u.journalLineId then { row with isCleared := u.isCleared } else row

def updateLines (r : Recs) (recId : Id) (updates : List LineUpdate) : Except RecError Recs := do
  let _ ← openRec r recId
  return updates.foldl (updateLine recId) r

/-- The beginning balance and what the cleared lines of the worksheet add to it. -/
def clearedBalance (b : Books) (r : Recs) (h : Reconciliation) : Dec :=
  (r.rows.filter fun row => row.reconciliationId = h.id ∧ row.isCleared).foldl
    (fun cleared row =>
      match b.lines.find? (fun l => l.id = row.journalLineId) with
      | none => cleared
      | some l => plus cleared (minus l.debit l.credit)) h.beginningBalance

def complete (b : Books) (r : Recs) (recId : Id) : Except RecError Recs := do
  let h ← openRec r recId
  let cleared := clearedBalance b r h
  let difference := minus h.statementEndingBalance cleared
  if 1 / 100 < |difference| then .error (.difference difference)
  else
    return r.setHeader recId fun h =>
      { h with status := .complete, clearedBalance := some (round4 cleared), difference := some 0 }

/-- Only what the query answers as the account's latest completed reconciliation is reopened; its
lines are all uncleared. -/
def undo (r : Recs) (recId : Id) (latest : Option Id) : Except RecError Recs :=
  match r.find recId with
  | none => .error .notFound
  | some h =>
    if h.status ≠ .complete then .error .notComplete
    else if r.latestAnswer h.accountId latest = false then .error .storage
    else if latest ≠ some recId then .error .notLatest
    else
      .ok ((r.setHeader recId fun h => { h with status := .inProgress }).mapRows recId
        fun row => { row with isCleared := false })

def cancel (r : Recs) (recId : Id) : Except RecError Recs :=
  match r.find recId with
  | none => .error .notFound
  | some h =>
    if h.status = .complete then .error .completeNotCanceled
    else .ok {
      headers := r.headers.filter fun h => h.id ≠ recId
      rows := r.rows.filter fun row => row.reconciliationId ≠ recId
      statements := r.statements.map fun s =>
        if s.reconciliationId = some recId then { s with reconciliationId := none } else s
      feed := r.feed }

end MyBooks
