import Mathlib.Data.List.Sort
import Mathlib.Logic.Function.Basic
import MyBooks.Books
import MyBooks.Result
import MyBooks.Runs

/-!
# Check numbers

Each bank account has a counter of check numbers. A check takes its number from it, or is given one
that is looked up among the checks of the account; a check that waits to be printed has none until its
batch is printed. Nothing in the books keeps two checks from one number but the counter and the
look-ups (`assertCheckNumberFree`). What a call reads of the rest of the books comes with it.
-/

namespace MyBooks

namespace Checks

inductive PrintStatus
  | queue
  | handWritten
  | printed
  deriving DecidableEq

inductive CheckTxnType
  | expense
  | customerRefund
  deriving DecidableEq

inductive CheckStatus
  | posted
  | void
  | deleted
  deriving DecidableEq

structure CheckLine where
  accountId : Id
  debit : Dec
  credit : Dec
  isVoidReversal : Bool := false
  deriving DecidableEq

structure Check where
  id : ℕ
  txnType : CheckTxnType
  status : CheckStatus := .posted
  isCheck : Bool
  checkNumber : Option ℕ
  printStatus : Option PrintStatus
  printBatchId : Option Id := none
  contactId : Option Id
  payeeNameOnCheck : Option String
  payeeAddress : Option String
  printedMemo : Option String
  memo : Option String
  txnDate : String
  total : Dec
  lines : List CheckLine
  deriving DecidableEq

/-- The checks of a company, and its check settings: the counter of each bank account, and the number
they start from. -/
structure Checkbook where
  checks : List Check := []
  nextId : ℕ := 0
  nextCheckNumbers : Id → Option ℕ := fun _ => none
  nextCheckNumber : Option ℕ := none

inductive PrintedFaceField
  | amount
  | contactId
  | payeeNameOnCheck
  | payeeAddress
  | printedMemo
  | bankAccountId
  | txnDate
  | checkNumber
  deriving DecidableEq

inductive CheckError
  | amountNotPositive
  | linesDoNotSum (sum amount : Dec)
  | billableWithoutContact
  | numberExists (checkNumber : ℕ)
  | refsNotInScope
  | ledger
  | notFound
  | notEditable
  | checkPrinted (changedFields : List PrintedFaceField)
  | notPosted (checkId : ℕ)
  | notInQueue (checkId : ℕ)
  | notOnBankAccount (checkId : ℕ)
  | notPrinted (checkId : ℕ)
  | bankAccountUnknown (checkId : ℕ)
  | batchNotFound
  | numberWithPrintLater
  deriving DecidableEq

/-- A transaction that is not deleted holds a number on an account that a line of it is on. -/
def Check.holds (c : Check) (accountId : Id) (checkNumber : ℕ) : Bool :=
  c.checkNumber = some checkNumber && c.status ≠ .deleted && c.lines.any (·.accountId = accountId)

def isCheckRow (c : Check) : Bool :=
  c.isCheck || c.printStatus.isSome

section Counter

variable (s : Checkbook) (bankAccountId : Id)

def Checkbook.nextNumFor : ℕ :=
  (s.nextCheckNumbers bankAccountId).getD (s.nextCheckNumber.getD 1001)

def Checkbook.setNextNum (value : ℕ) : Checkbook :=
  { s with nextCheckNumbers := Function.update s.nextCheckNumbers bankAccountId (some value) }

def Checkbook.advanceCounterPast (checkNumber : ℕ) : Checkbook :=
  s.setNextNum bankAccountId (max (s.nextNumFor bankAccountId) (checkNumber + 1))

/-- The number the counter hands out, and the counter past it. -/
def Checkbook.allocateCheckNumber : ℕ × Checkbook :=
  (s.nextNumFor bankAccountId, s.setNextNum bankAccountId (s.nextNumFor bankAccountId + 1))

def Checkbook.isTaken (checkNumber : ℕ) (excludeTxnId : Option ℕ) : Bool :=
  s.checks.any fun c => c.holds bankAccountId checkNumber && some c.id ≠ excludeTxnId

def Checkbook.assertCheckNumberFree (checkNumber : ℕ) (excludeTxnId : Option ℕ) : Except CheckError Unit :=
  if s.isTaken bankAccountId checkNumber excludeTxnId then .error (.numberExists checkNumber) else .ok ()

def Checkbook.find (checkId : ℕ) : Option Check := s.checks.find? (·.id = checkId)

def Checkbook.put (c : Check) : Checkbook :=
  { s with checks := s.checks.map fun x => if x.id = c.id then c else x }

def Checkbook.add (c : Check) : Checkbook :=
  { s with checks := s.checks ++ [c], nextId := s.nextId + 1 }

end Counter

structure CheckInputLine where
  accountId : Id
  amount : Dec
  contactId : Option Id
  isBillable : Bool

structure CheckBody where
  bankAccountId : Id
  contactId : Option Id
  payeeNameOnCheck : String
  payeeAddress : Option String
  txnDate : String
  amount : Dec
  printedMemo : Option String
  memo : Option String
  lines : List CheckInputLine
  checkNumber : Option ℕ

structure WriteCheckInput extends CheckBody where
  printLater : Bool

inductive PrintedCheckChange
  | reprint
  | keepNumber
  deriving DecidableEq

structure UpdateCheckInput extends CheckBody where
  printLater : Option Bool
  printedCheckChange : Option PrintedCheckChange

/-- What the rest of the books answers to a call: whether its references are in scope, whether the
ledger takes it, and the costing lines it adds. -/
structure Answer where
  refsInScope : Bool
  accepted : Bool
  derived : List CheckLine

/-- A text that is not empty. -/
def orNull (text : Option String) : Option String := text.filter (· ≠ "")

/-- A number that is not zero. -/
def CheckBody.typedNumber (input : CheckBody) : Option ℕ := input.checkNumber.filter (· ≠ 0)

def buildCheckLines (input : CheckBody) : Except CheckError (List CheckLine) :=
  let sum := (input.lines.map (·.amount)).sum
  if input.amount ≤ 0 then .error .amountNotPositive
  else if sum ≠ input.amount then .error (.linesDoNotSum sum input.amount)
  else if input.lines.any fun l => l.isBillable && l.contactId.isNone then .error .billableWithoutContact
  else .ok ((input.lines.map fun l => { accountId := l.accountId, debit := l.amount, credit := 0 }) ++
    [{ accountId := input.bankAccountId, debit := 0, credit := input.amount }])

section Create

variable (input : WriteCheckInput) (answer : Answer)

/-- The ledger's post of a check, with its check fields. -/
def postCheck (lines : List CheckLine) (checkNumber : Option ℕ) (printStatus : PrintStatus) (s : Checkbook) :
    Except CheckError Checkbook :=
  if !answer.refsInScope then .error .refsNotInScope
  else if !answer.accepted then .error .ledger
  else .ok (s.add {
    id := s.nextId, txnType := .expense, isCheck := true, checkNumber := checkNumber
    printStatus := some printStatus, contactId := input.contactId
    payeeNameOnCheck := some input.payeeNameOnCheck, payeeAddress := orNull input.payeeAddress
    printedMemo := orNull input.printedMemo, memo := orNull input.memo, txnDate := input.txnDate
    total := input.amount, lines := lines ++ answer.derived })

def createCheck (s : Checkbook) : Except CheckError Checkbook := do
  let lines ← buildCheckLines input.toCheckBody
  if input.printLater then postCheck input answer lines none .queue s
  else
    match input.typedNumber with
    | some n =>
      let s := s.advanceCounterPast input.bankAccountId n
      s.assertCheckNumberFree input.bankAccountId n none
      postCheck input answer lines (some n) .handWritten s
    | none =>
      let allocated := s.allocateCheckNumber input.bankAccountId
      postCheck input answer lines (some allocated.1) .handWritten allocated.2

/-- What a check that was not posted leaves: a number it was allocated outside of a transaction stays
handed out. -/
def createCheckFailed (outerTx : Bool) (s : Checkbook) : Checkbook :=
  match buildCheckLines input.toCheckBody with
  | .error _ => s
  | .ok _ =>
    if outerTx || input.printLater || input.typedNumber.isSome then s
    else (s.allocateCheckNumber input.bankAccountId).2

end Create

section Update

variable (existing : Check) (input : UpdateCheckInput) (answer : Answer)

/-- The fields of a printed check's face that an edit changes. -/
def printedFaceChanges : List PrintedFaceField :=
  let bankLines := existing.lines.filter fun l => !l.isVoidReversal && 0 < l.credit
  let oldMemoLine := (existing.printedMemo.or existing.memo).getD ""
  let newMemoLine := ((orNull input.printedMemo).or (orNull input.memo)).getD ""
  ([(.amount, input.amount ≠ existing.total),
    (.contactId, input.contactId ≠ existing.contactId),
    (.payeeNameOnCheck, some input.payeeNameOnCheck ≠ existing.payeeNameOnCheck),
    (.payeeAddress, orNull input.payeeAddress ≠ orNull existing.payeeAddress),
    (.printedMemo, newMemoLine ≠ oldMemoLine),
    (.bankAccountId, bankLines.map (·.accountId) ≠ [input.bankAccountId]),
    (.txnDate, input.txnDate ≠ existing.txnDate),
    (.checkNumber, input.checkNumber.isSome && input.checkNumber ≠ existing.checkNumber)] :
    List (PrintedFaceField × Bool)).filterMap fun (field, changed) => if changed then some field else none

/-- What an edit says is done with a printed check whose face it changes. -/
def printedChange : Except CheckError (Option PrintedCheckChange) :=
  if existing.printStatus ≠ some .printed then .ok none
  else
    let changedFields := printedFaceChanges existing input
    if changedFields = [] ∧ input.printLater ≠ some true then .ok none
    else
      match input.printedCheckChange with
      | none => .error (.checkPrinted changedFields)
      | some choice =>
        if input.printLater = some true ∧ choice ≠ .reprint then .error (.checkPrinted changedFields)
        else .ok (some choice)

/-- Where the number of an edited check comes from: the queue has none, a new one is from the counter, a
typed one is looked up and counted, one that stays is only looked up, and that of a printed check stays
as it is. -/
inductive Numbering
  | queued (clearPrintStamp : Bool)
  | allocated
  | typed (checkNumber : ℕ)
  | kept (checkNumber : ℕ)
  | printed (checkNumber : Option ℕ)
  deriving DecidableEq

def numbering (change : Option PrintedCheckChange) : Numbering :=
  let wasPrinted := existing.printStatus = some .printed
  if change = some .reprint ∨ ¬wasPrinted ∧ input.printLater = some true then .queued true
  else if change = some .keepNumber then
    match input.checkNumber.or existing.checkNumber with
    | none => .allocated
    | some n => .typed n
  else if wasPrinted then .printed existing.checkNumber
  else
    let unnumbered := if input.printLater = some false then .allocated else .queued false
    match input.typedNumber, existing.checkNumber with
    | some n, _ => .typed n
    | none, some n => if existing.printStatus ≠ some .queue then .kept n else unnumbered
    | none, none => unnumbered

structure TakenNumber where
  checkNumber : Option ℕ
  printStatus : Option PrintStatus
  clearPrintStamp : Bool

/-- The number of an edited check and its print status, and the counter. -/
def takeNumber (bankAccountId : Id) (s : Checkbook) : Numbering → Except CheckError (TakenNumber × Checkbook)
  | .queued clearPrintStamp => .ok (⟨none, some .queue, clearPrintStamp⟩, s)
  | .allocated =>
    let allocated := s.allocateCheckNumber bankAccountId
    .ok (⟨some allocated.1, some .handWritten, true⟩, allocated.2)
  | .typed n => do
    let s := s.advanceCounterPast bankAccountId n
    s.assertCheckNumberFree bankAccountId n (some existing.id)
    return (⟨some n, some .handWritten, true⟩, s)
  | .kept n => do
    s.assertCheckNumberFree bankAccountId n (some existing.id)
    return (⟨some n, existing.printStatus, false⟩, s)
  | .printed checkNumber => .ok (⟨checkNumber, some .printed, false⟩, s)

/-- The check as the edit leaves it. -/
def editedCheck (lines : List CheckLine) (taken : TakenNumber) : Check :=
  { existing with
    contactId := input.contactId, memo := orNull input.memo, txnDate := input.txnDate, total := input.amount
    lines := lines ++ answer.derived
    checkNumber := taken.checkNumber, printStatus := taken.printStatus
    printBatchId := if taken.clearPrintStamp then none else existing.printBatchId
    payeeNameOnCheck := some input.payeeNameOnCheck, payeeAddress := orNull input.payeeAddress
    printedMemo := orNull input.printedMemo }

/-- The ledger's lines of a check are replaced before its number is looked up. -/
def updateCheck (checkId : ℕ) (s : Checkbook) : Except CheckError Checkbook := do
  let lines ← buildCheckLines input.toCheckBody
  let some existing := s.find checkId | .error .notFound
  if !isCheckRow existing || existing.status = .deleted then .error .notFound
  else if existing.txnType ≠ .expense then .error .notEditable
  else do
    let change ← printedChange existing input
    if !answer.refsInScope then .error .refsNotInScope
    else if existing.status = .void || !answer.accepted then .error .ledger
    else do
      let taken ← takeNumber existing input.bankAccountId s (numbering existing input change)
      .ok (taken.2.put (editedCheck existing input answer lines taken.1))

end Update

section Print

/-- What the account a line is on is, in the chart of accounts. -/
structure Chart where
  isAsset : Id → Bool
  isBank : Id → Bool

variable (chart : Chart)

/-- The order of the lines a check may be drawn on: assets, bank accounts, the larger credits. -/
def drawnBefore (l m : CheckLine) : Bool :=
  if chart.isAsset l.accountId ≠ chart.isAsset m.accountId then chart.isAsset l.accountId
  else if chart.isBank l.accountId ≠ chart.isBank m.accountId then chart.isBank l.accountId
  else if l.credit ≠ m.credit then m.credit < l.credit
  else l.accountId ≤ m.accountId

/-- The bank account a check is drawn on. -/
def checkBankAccountId (c : Check) : Option Id :=
  (((c.lines.filter fun l => 0 < l.credit && !l.isVoidReversal).insertionSort
    fun l m => drawnBefore chart l m).head?).map (·.accountId)

/-- A check of a batch takes its number if it waits for it on the batch's account. -/
def printCheck (bankAccountId batchId : Id) (startingNumber : ℕ) (periodOpen : Bool) (s : Checkbook)
    (check : ℕ × ℕ) : Except CheckError Checkbook :=
  match s.find check.1 with
  | none => .error .notFound
  | some c =>
    if c.status = .deleted then .error .notFound
    else if c.status ≠ .posted then .error (.notPosted check.1)
    else if c.printStatus ≠ some .queue then .error (.notInQueue check.1)
    else if checkBankAccountId chart c ≠ some bankAccountId then .error (.notOnBankAccount check.1)
    else if !periodOpen then .error .ledger
    else .ok (s.put { c with
      checkNumber := some (startingNumber + check.2), printStatus := some .printed, printBatchId := some batchId })

def printChecks (bankAccountId batchId : Id) (checkIds : List ℕ) (startingNumber : ℕ) (periodOpen : Bool)
    (s : Checkbook) : Except CheckError Checkbook := do
  let endNumber := startingNumber + checkIds.length
  match (List.range' startingNumber checkIds.length).find? fun n => s.isTaken bankAccountId n none with
  | some n => .error (.numberExists n)
  | none => do
    let s ← checkIds.zipIdx.foldlM (printCheck chart bankAccountId batchId startingNumber periodOpen) s
    .ok (s.setNextNum bankAccountId (max (s.nextNumFor bankAccountId) endNumber))

/-- A check back in the queue. Its number is taken off it. -/
def sendBackToQueue (periodOpen : Bool) (s : Checkbook) (c : Check) : Except CheckError Checkbook :=
  if !periodOpen then .error .ledger
  else if c.checkNumber.isSome && (checkBankAccountId chart c).isNone then .error (.bankAccountUnknown c.id)
  else .ok (s.put { c with printStatus := some .queue, checkNumber := none, printBatchId := none })

/-- Void and deleted checks stay as they are. -/
def requeueChecks (checkIds : List ℕ) (periodOpen : Bool) (s : Checkbook) : Except CheckError Checkbook := do
  let ids := checkIds.eraseDups
  let found := s.checks.filter fun c => ids.contains c.id && isCheckRow c
  if found.length ≠ ids.length then .error .notFound
  else
    let usable := found.filter fun c => c.status = .posted
    match usable.find? fun c => c.printStatus ≠ some .printed && c.printStatus ≠ some .queue with
    | some c => .error (.notPrinted c.id)
    | none => usable.foldlM (sendBackToQueue chart periodOpen) s

def reprintBatch (batchId : Id) (periodOpen : Bool) (s : Checkbook) : Except CheckError Checkbook :=
  let rows := s.checks.filter fun c => c.printBatchId = some batchId
  if rows = [] then .error .batchNotFound
  else (rows.filter fun c => c.status = .posted).foldlM (sendBackToQueue chart periodOpen) s

end Print

structure CreateCustomerRefundInput where
  refundFromAccountId : Id
  contactId : Option Id
  txnDate : String
  amount : Dec
  memo : Option String
  paymentByCheck : Bool
  printLater : Option Bool
  checkNumber : Option ℕ

/-- A refund of a customer, out of receivables or customer deposits. -/
def createCustomerRefund (input : CreateCustomerRefundInput) (strictAccount : Bool) (debitAccountId : Id)
    (accepted : Bool) (s : Checkbook) : Except CheckError Checkbook := do
  let byCheck := input.printLater = some true || input.checkNumber.isSome || strictAccount && input.paymentByCheck
  let printLater := input.printLater.getD (byCheck && input.checkNumber.isNone)
  let refund (checkNumber : Option ℕ) (s : Checkbook) : Except CheckError Checkbook :=
    if !accepted then .error .ledger
    else .ok (s.add {
      id := s.nextId, txnType := .customerRefund, isCheck := byCheck
      checkNumber := checkNumber
      printStatus := if byCheck then some (if printLater then .queue else .handWritten) else none
      contactId := input.contactId, payeeNameOnCheck := none, payeeAddress := none, printedMemo := none
      memo := orNull input.memo, txnDate := input.txnDate, total := input.amount
      lines := [{ accountId := debitAccountId, debit := input.amount, credit := 0 },
        { accountId := input.refundFromAccountId, debit := 0, credit := input.amount }] })
  if input.printLater = some true ∧ input.checkNumber.isSome then .error .numberWithPrintLater
  else
    match input.checkNumber, printLater with
    | some n, false => do
      s.assertCheckNumberFree input.refundFromAccountId n none
      refund (some n) (s.advanceCounterPast input.refundFromAccountId n)
    | _, _ => refund none s

/-- A void check keeps its number, and leaves the queue. -/
def voidCheck (checkId : ℕ) (accepted : Bool) (s : Checkbook) : Except CheckError Checkbook :=
  match s.find checkId with
  | none => .error .notFound
  | some c =>
    if c.status = .deleted then .error .notFound
    else if c.status = .void || !accepted then .error .ledger
    else .ok (s.put { c with
      status := .void
      printStatus := if c.printStatus = some .queue then none else c.printStatus
      lines := c.lines ++ c.lines.map fun l =>
        { accountId := l.accountId, debit := l.credit, credit := l.debit, isVoidReversal := true } })

inductive CheckAction
  | create (input : WriteCheckInput) (answer : Answer) (outerTx : Bool)
  | update (checkId : ℕ) (input : UpdateCheckInput) (answer : Answer)
  | print (bankAccountId batchId : Id) (checkIds : List ℕ) (startingNumber : ℕ) (periodOpen : Bool)
  | requeue (checkIds : List ℕ) (periodOpen : Bool)
  | reprint (batchId : Id) (periodOpen : Bool)
  | refund (input : CreateCustomerRefundInput) (strictAccount : Bool) (debitAccountId : Id) (accepted : Bool)
  | void (checkId : ℕ) (accepted : Bool)

/-- A call that throws leaves everything as it was, but for a number handed out. -/
def checkStep (chart : Chart) (s : Checkbook) : CheckAction → Option Checkbook
  | .create input answer outerTx =>
    some ((createCheck input answer s).toOption.getD (createCheckFailed input outerTx s))
  | .update checkId input answer => some ((updateCheck input answer checkId s).toOption.getD s)
  | .print bankAccountId batchId checkIds startingNumber periodOpen =>
    some ((printChecks chart bankAccountId batchId checkIds startingNumber periodOpen s).toOption.getD s)
  | .requeue checkIds periodOpen => some ((requeueChecks chart checkIds periodOpen s).toOption.getD s)
  | .reprint batchId periodOpen => some ((reprintBatch chart batchId periodOpen s).toOption.getD s)
  | .refund input strictAccount debitAccountId accepted =>
    some ((createCustomerRefund input strictAccount debitAccountId accepted s).toOption.getD s)
  | .void checkId accepted => some ((voidCheck checkId accepted s).toOption.getD s)

end Checks

end MyBooks
