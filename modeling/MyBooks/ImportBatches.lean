import MyBooks.ImportRows

/-!
# Import batches

`commitBatch` classifies the rows against the account's items, inserts the new ones and replaces
items that changed, keeping their values before. `undoBatch` removes what a batch inserted and
restores what it replaced, as long as nothing of it was used since. Items are those of the account's
connections. The chunks of an insert follow each other, so they are one insert here.
-/

namespace MyBooks.ImportRows

open ImportKeys

/-- An item as the database keeps it. -/
structure FeedItem extends ExistingItem where
  /-- `assigned_at` is set. -/
  assigned : Bool
  /-- `matched_transaction_id` is set. -/
  matched : Bool
  importBatchId : Option CodeUnits
  sourceLine : Option ℕ
  possibleDuplicateOf : Option CodeUnits
  deriving DecidableEq

structure ItemValues where
  amount : ℚ
  feedDate : IsoDate
  rowKey : Option CodeUnits
  deriving DecidableEq

/-- A changed row's existing item that a batch replaced. -/
structure ReplacedItem where
  id : CodeUnits
  line : ℕ
  before : ItemValues
  after : ItemValues
  deriving DecidableEq

inductive PostProcessing where
  | scheduled | done | failed
  deriving DecidableEq, Repr

structure ImportBatch where
  id : CodeUnits
  replacedItems : List ReplacedItem
  postProcessing : PostProcessing
  undone : Bool
  deriving DecidableEq

/-- An account's feed: its manual connection, its items and its batches. -/
structure Feed where
  manual : Option CodeUnits
  items : List FeedItem
  batches : List ImportBatch

structure RowResult where
  line : ℕ
  status : RowStatus
  reason : Option RowReason
  existingItemId : Option CodeUnits
  existingImportedAt : Option CodeUnits
  existingPending : Option Bool
  inserted : Bool
  replaced : Option Bool
  deriving DecidableEq

/-- What the database and the clock give a commit. -/
structure CommitEnv where
  batchId : CodeUnits
  /-- The id of a connection, if one is created. -/
  connectionId : CodeUnits
  now : CodeUnits
  /-- The id of row `i`'s item. -/
  itemId : ℕ → CodeUnits

structure BatchInput where
  bounds : Section
  rows : List BatchRowInput

/-! ## Reading -/

/-- The date of a day. -/
def isoDate (n : ℤ) : IsoDate := ⟨(civil n).y.toNat, (civil n).m.toNat, (civil n).d.toNat⟩

/-- `feed_date` within `FUZZY_DAYS` of the rows' dates. -/
def inPoolDates (rows : List BatchRowInput) (d : IsoDate) : Bool :=
  match (rows.map (·.date)).insertionSort fun a b => a.rank ≤ b.rank with
  | [] => false
  | first :: rest =>
    let last := rest.getLastD first
    (isoDate (dayNumber first - FUZZY_DAYS)).rank ≤ d.rank &&
      d.rank ≤ (isoDate (dayNumber last + FUZZY_DAYS)).rank

def hasKey (keys : List CodeUnits) (key : Option CodeUnits) : Bool := key.any keys.contains

/-- The oldest item of a key is its item. -/
def addKeys (keys : List CodeUnits) (m : Entries CodeUnits ExistingItem) (it : ExistingItem) :
    Entries CodeUnits ExistingItem :=
  [it.dedupeKey, it.rowKey].foldl
    (fun m key =>
      match key with
      | none => m
      | some k => if keys.contains k && (m.get? k).isNone then m.set k it else m)
    m

def lookups (items : List ExistingItem) (rows : List BatchRowInput) (keyed : List KeyedRow) :
    Lookups :=
  let fitids := rows.map fun r => cleanFitid r.fitid
  let keys := keyed.map (·.rowKey)
  let known := items.filter fun it => it.fitid.isSome && fitids.contains it.fitid
  let keyedItems := items.filter fun it => hasKey keys it.dedupeKey || hasKey keys it.rowKey
  { byFitid := known.foldl
      (fun m it => m.update (it.fitid.getD []) fun l => l.getD [] ++ [it]) []
    byKey := (sortByAge keyedItems).foldl (addKeys keys) []
    pool := sortByAge (items.filter fun it =>
      inPoolDates rows it.date && (keyed.map (·.canonicalAmount)).contains it.amount) }

/-! ## Commit -/

/-- A row with what it is classified as. -/
structure RowPlan where
  row : BatchRowInput
  keyed : KeyedRow
  classified : Classified

variable (nfc sha256 : CodeUnits → CodeUnits)

def BatchInput.keyed (input : BatchInput) : List KeyedRow :=
  keyRows nfc sha256 (input.rows.map fun r => ⟨r.date, r.amount, r.description⟩)

def plan (items : List FeedItem) (input : BatchInput) : List RowPlan :=
  let keyed := input.keyed nfc sha256
  let look := lookups (items.map (·.toExistingItem)) input.rows keyed
  let classified := classifyRows nfc sha256 input.rows keyed look input.bounds
  (input.rows.zip (keyed.zip classified)).map fun p => ⟨p.1, p.2.1, p.2.2⟩

/-- A string as the database stores it. -/
def storedText (s : CodeUnits) : Text := (decodeUtf16 (some '\uFFFD') s).getD []

/-- The item of a row that is inserted. -/
def newItem (env : CommitEnv) (connectionId : CodeUnits) (p : RowPlan) (i : ℕ) : FeedItem where
  id := env.itemId i
  connectionId := connectionId
  fitid := p.classified.fitidUsed
  date := p.row.date
  amount := p.keyed.canonicalAmount
  description := storedText p.row.description
  checkNumber := p.row.checkNumber
  status := "pending"
  createdAt := env.now
  dedupeKey := some p.classified.dedupeKey
  rowKey := some p.keyed.rowKey
  assigned := false
  matched := false
  importBatchId := some env.batchId
  sourceLine := some p.row.line
  possibleDuplicateOf :=
    if p.classified.status = .possibleDuplicate then p.classified.existing.map (·.id) else none

/-- The unique indexes of a connection: the dedupe key and the bank id. -/
def conflicts (x y : FeedItem) : Bool :=
  x.connectionId = y.connectionId &&
    (x.dedupeKey.isSome && x.dedupeKey = y.dedupeKey || x.fitid.isSome && x.fitid = y.fitid)

/-- `ON CONFLICT DO NOTHING`. Kept with the items are the rows inserted. -/
def insertOne (acc : List FeedItem × List ℕ) (x : FeedItem × ℕ) : List FeedItem × List ℕ :=
  if acc.1.any (conflicts x.1) then acc else (acc.1 ++ [x.1], acc.2 ++ [x.2])

def toInsert (env : CommitEnv) (connectionId : CodeUnits) (plans : List RowPlan) :
    List (FeedItem × ℕ) :=
  plans.zipIdx.filterMap fun p =>
    if wouldInsert p.1.row p.1.classified then some (newItem env connectionId p.1 p.2, p.2)
    else none

def FeedItem.untouched (it : FeedItem) : Bool :=
  it.status = "pending" && !it.assigned && !it.matched

def FeedItem.values (it : FeedItem) : ItemValues := ⟨it.amount, it.date, it.rowKey⟩

def FeedItem.setValues (it : FeedItem) (v : ItemValues) : FeedItem :=
  { it with amount := v.amount, date := v.feedDate, rowKey := v.rowKey }

def updateItem (items : List FeedItem) (id : CodeUnits) (f : FeedItem → FeedItem) : List FeedItem :=
  items.map fun it => if it.id = id then f it else it

/-- A changed row with "replace": the existing item gets the row's values while it is pending and
untouched. -/
def replaceOne (acc : List FeedItem × List ReplacedItem) (p : RowPlan) :
    (List FeedItem × List ReplacedItem) × Option Bool :=
  match p.classified.existing with
  | none => (acc, none)
  | some existing =>
    if p.classified.status = .changed && p.row.changedAction = some .replace then
      match acc.1.find? fun it => it.id = existing.id with
      | none => (acc, some false)
      | some before =>
        if before.untouched then
          let after : ItemValues := ⟨p.keyed.canonicalAmount, p.row.date, some p.keyed.rowKey⟩
          ((updateItem acc.1 existing.id (·.setValues after),
            acc.2 ++ [⟨existing.id, p.row.line, before.values, after⟩]), some true)
        else (acc, some false)
    else (acc, none)

def rowResult (p : RowPlan) (inserted : Bool) (replaced : Option Bool) : RowResult where
  line := p.row.line
  status := p.classified.status
  reason := p.classified.reason
  existingItemId := p.classified.existing.map (·.id)
  existingImportedAt := p.classified.existing.map (·.createdAt)
  existingPending :=
    p.classified.existing.map fun e => e.status = "pending" || e.status = "assigned"
  inserted := inserted
  replaced := replaced

/-- The feed after the commit, and the results of the rows. -/
def commitBatch (feed : Feed) (input : BatchInput) (env : CommitEnv) : Feed × List RowResult :=
  let connectionId := feed.manual.getD env.connectionId
  let plans := plan nfc sha256 feed.items input
  let ins := (toInsert env connectionId plans).foldl insertOne (feed.items, [])
  let rep := sweep replaceOne (ins.1, []) plans
  let batch : ImportBatch := {
    id := env.batchId
    replacedItems := rep.1.2
    postProcessing := if ins.2 = [] then .done else .scheduled
    undone := false }
  (⟨some connectionId, rep.1.1, feed.batches ++ [batch]⟩,
    (plans.zip rep.2).zipIdx.map fun r => rowResult r.1.1 (ins.2.contains r.2) r.1.2)

/-! ## Post-processing and undo -/

/-- Post-processing of a batch: `f` on its items, which ends well or not. -/
def postProcess (feed : Feed) (batchId : CodeUnits) (f : FeedItem → FeedItem) (failed : Bool) :
    Feed :=
  { feed with
    items := feed.items.map fun it => if it.importBatchId = some batchId then f it else it
    batches := feed.batches.map fun b =>
      if b.id = batchId then { b with postProcessing := if failed then .failed else .done } else b }

inductive UndoError where
  | notFound
  | alreadyUndone
  | stillPreparing
  | rowsAlreadyUsed (lines : List ℕ)
  deriving DecidableEq

structure UndoResult where
  removed : ℕ
  restored : ℕ
  kept : ℕ

/-- An item is still as the batch left it. -/
def ReplacedItem.asLeft (r : ReplacedItem) (it : FeedItem) : Bool :=
  it.untouched && it.amount = r.after.amount && it.date = r.after.feedDate

/-- The current item of a replaced one. An item removed since is skipped. -/
def current (items : List FeedItem) (r : ReplacedItem) : Option FeedItem :=
  items.find? fun it => it.id = r.id

def removeItems (items : List FeedItem) (ids : List CodeUnits) : List FeedItem :=
  (items.filter fun it => !ids.contains it.id).map fun it =>
    if it.possibleDuplicateOf.any ids.contains then { it with possibleDuplicateOf := none } else it

/-- The items after undoing a batch: what can be restored is, and its untouched ones are removed. -/
def undoItems (items : List FeedItem) (batch : ImportBatch) : List FeedItem :=
  let mine := items.filter fun it => it.importBatchId = some batch.id
  let restorable := batch.replacedItems.filter fun r => (current items r).any r.asLeft
  removeItems
    (restorable.foldl (fun items r => updateItem items r.id (·.setValues r.before)) items)
    ((mine.filter (·.untouched)).map (·.id))

def undoBatch (feed : Feed) (batchId : CodeUnits) (pendingOnly : Bool) :
    Except UndoError (Feed × UndoResult) :=
  match feed.batches.find? fun b => b.id = batchId with
  | none => .error .notFound
  | some batch =>
    if batch.undone then .error .alreadyUndone
    else if batch.postProcessing = .scheduled then .error .stillPreparing
    else
      let mine := feed.items.filter fun it => it.importBatchId = some batch.id
      let used := mine.filter fun it => !it.untouched
      let restorable := batch.replacedItems.filter fun r => (current feed.items r).any r.asLeft
      let usedReplaced := batch.replacedItems.filter fun r =>
        (current feed.items r).any fun it => !r.asLeft it
      if (!used.isEmpty || !usedReplaced.isEmpty) && !pendingOnly then
        .error (.rowsAlreadyUsed
          ((used.filterMap (·.sourceLine) ++ usedReplaced.map (·.line)).insertionSort (· ≤ ·)))
      else
        .ok ({ feed with
            items := undoItems feed.items batch
            batches := feed.batches.map fun b =>
              if b.id = batchId then { b with undone := true } else b },
          { removed := (mine.filter (·.untouched)).length
            restored := restorable.length
            kept := used.length + usedReplaced.length })

end MyBooks.ImportRows
