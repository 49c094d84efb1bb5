import MyBooks.Walk
import Mathlib.Data.Prod.Lex
import Mathlib.Data.String.Basic

/-!
# The stored stock ledger and its incremental re-walk

A movement row stores what the last walk over it computed. `walkItem` re-walks one item from a
document position on, seeded from the stored row before it; while on hand is below zero there it
goes back to the last row at zero or above and replays the rows since with their stored figures.
-/

namespace MyBooks

/-- A document's place in the ledger: its date, then its entry time, then its id. -/
abbrev Pos := String ×ₗ ℕ ×ₗ String

def Pos.mk (date : String) (created : ℕ) (txn : Id) : Pos := toLex (date, toLex (created, txn))

/-- The live row of one movement of the item. Its sale's position stays out: the rows are given in
their stored order. -/
structure Movement where
  id : Id
  transactionId : Id
  sourceTransactionId : Option Id
  movementDate : String
  txnCreatedAt : ℕ
  kind : MovementKind
  quantity : Dec
  valueMode : ValueMode
  value : Dec
  correction : Dec
  residual : Dec
  fallbackCost : Option Dec
  runningQty : Dec
  runningValue : Dec
  lastCost : Dec
  correctionShare : Dec
  deriving DecidableEq, Repr

def Movement.pos (m : Movement) : Pos := Pos.mk m.movementDate m.txnCreatedAt m.transactionId

/-- A stored row's figures and running state, as the walk reads a replayed row. -/
def storedFigures (m : Movement) : RowFigures × WalkState :=
  (⟨m.value, m.correction, m.residual⟩, ⟨m.runningQty, m.runningValue, m.lastCost⟩)

def toWalk (m : Movement) (fixed : Option (RowFigures × WalkState)) : WalkRow where
  id := m.id
  transactionId := some m.transactionId
  date := m.movementDate
  kind := m.kind
  quantity := m.quantity
  valueMode := m.valueMode
  given := if m.valueMode = .given then some m.value else none
  sourceId := m.sourceTransactionId
  fallbackCost := m.fallbackCost
  fixed := fixed

def Movement.replay (m : Movement) : WalkRow := toWalk m (some (storedFigures m))
def Movement.recompute (m : Movement) : WalkRow := toWalk m none

/-- The running state stored on a row; the zero state before the first one. -/
def stateOf : Option Movement → WalkState
  | some m => (storedFigures m).2
  | none => zeroState

/-- The state the walk starts from and the rows before the start it replays. -/
def walkSeed (pre : List Movement) : WalkState × List Movement :=
  let seed := stateOf pre.getLast?
  if seed.q < 0 then
    let calm := (pre.filter (fun m => 0 ≤ m.runningQty)).getLast?
    match calm with
    | some c =>
      let before := pre.filter (fun m => c.pos ≤ m.pos)
      (stateOf calm, before.drop (before.findIdx (fun m => m.id = c.id) + 1))
    | none => (stateOf calm, pre)
  else (seed, [])

/-- The sales that linked returns among `all` name and that are not among `all` themselves. -/
def outsideSales (all : List Movement) : List Id :=
  let inWalk := (all.filter (fun m => m.kind = .sale)).map (·.transactionId)
  ((all.filter (fun m => m.valueMode = .linked)).filterMap (·.sourceTransactionId)).filter
    (fun t => t ∉ inWalk)

/-- A sale outside the rows walked: its stored cost with its correction share, its units, and what
its other returns took back. -/
def storedLink (stored all : List Movement) (saleId : Id) : Option SaleLink :=
  let walked := all.map (·.id)
  let sale := stored.find? (fun m => m.transactionId = saleId ∧ m.sourceTransactionId = none)
  let back := (stored.filter (fun m => m.sourceTransactionId = some saleId)).filter
    (fun m => m.id ∉ walked)
  sale.map fun sale =>
    ⟨-sale.value + sale.correctionShare, -sale.quantity, (back.map (·.quantity)).sum,
      (back.map (·.value)).sum⟩

def storedLinks (stored all : List Movement) : Except WalkError (IdMap SaleLink) :=
  (outsideSales all).foldlM (fun links saleId =>
    match storedLink stored all saleId with
    | none => .error .returnWithoutSale
    | some link => .ok (links.set saleId link)) noLinks

/-- What a re-walk computes: the results of the rows from the start on, and the walk's shares. -/
structure Rewalk where
  replayed : List Movement
  own : List RowResult
  shares : IdMap Dec

/-- Re-walks `rows`, with the stored rows `pre` before them. -/
def rewalk (pre rows : List Movement) : Except WalkError Rewalk := do
  let (seed, replayed) := walkSeed pre
  let all := replayed ++ rows
  let links ← storedLinks (pre ++ rows) all
  let full ← walk seed (replayed.map Movement.replay ++ rows.map Movement.recompute) links
  return ⟨replayed, full.rows.drop replayed.length, full.shares⟩

/-- A sale row's share of the corrections: the walk's, else the stored one. -/
def Rewalk.share (re : Rewalk) (m : Movement) : Dec :=
  if m.kind = .sale ∧ m.sourceTransactionId = none then
    (re.shares m.transactionId).getD m.correctionShare
  else 0

inductive CostingError where
  | closedPeriod
  | walk (e : WalkError)
  /-- A value-only adjustment needs the item in stock on its date. -/
  | noStock (date : String) (onHand : Dec)
  /-- The quantity on hand or the inventory value would be too large. -/
  | tooLarge
  deriving DecidableEq, Repr

def CostingError.code : CostingError → Option String
  | .noStock _ _ => some "INVENTORY_NO_STOCK"
  | .tooLarge => some "VALIDATION_ERROR"
  | .closedPeriod | .walk _ => none

def qtyLimit : Dec := 10 ^ 8
def moneyLimit : Dec := 10 ^ 15

structure InventoryWarning where
  itemId : Id
  date : String
  onHand : Dec
  deriving DecidableEq, Repr

/-- The first walked row that goes below zero (or, value-only, has no stock left) where its stored
on hand did not, or that is the posting's own outflow and ends below zero. -/
def negativeWarning (itemId trigger : Id) :
    List Movement → List RowResult → Option InventoryWarning
  | m :: rows, x :: walked =>
    let q := x.after.q
    if m.transactionId = trigger then
      if m.quantity < 0 ∧ q < 0 then some ⟨itemId, m.movementDate, toPlaces 4 q⟩
      else negativeWarning itemId trigger rows walked
    else if q < 0 ∧ 0 ≤ m.runningQty then some ⟨itemId, m.movementDate, toPlaces 4 q⟩
    else if m.kind = .adjustValue ∧ q ≤ 0 ∧ 0 < m.runningQty then
      some ⟨itemId, m.movementDate, toPlaces 4 q⟩
    else negativeWarning itemId trigger rows walked
  | _, _ => none

/-- The posting's own value-only adjustments need stock on hand before them. -/
def checkStock (trigger : Id) : WalkState → List Movement → List RowResult →
    Except CostingError Unit
  | before, m :: rows, x :: walked =>
    if m.transactionId = trigger ∧ m.kind = .adjustValue ∧ before.q ≤ 0 then
      .error (.noStock m.movementDate (toPlaces 4 before.q))
    else checkStock trigger x.after rows walked
  | _, _, _ => .ok ()

/-- A walked row with its figures in the columns' places. -/
def withFigures (m : Movement) (fig : RowFigures) : Movement :=
  { m with
    value := toPlaces 4 fig.value
    correction := toPlaces 4 fig.correction
    residual := toPlaces 4 fig.residual }

/-- A walked row as it is stored again. -/
def pushRow (m : Movement) (x : RowResult) (share : Dec) : Movement :=
  { withFigures m x.fig with
    runningQty := toPlaces 4 x.after.q
    runningValue := toPlaces 4 x.after.v
    lastCost := toPlaces 6 x.after.l
    correctionShare := toPlaces 4 share }

/-- A replayed sale keeps its row; only its correction share is written, where it moved. -/
def moveShare (m : Movement) (share : Dec) : Movement :=
  if m.kind = .sale ∧ share ≠ m.correctionShare then
    { m with correctionShare := toPlaces 4 share }
  else m

structure ShareMove where
  transactionId : Id
  itemId : Id
  before : Dec
  after : Dec
  deriving DecidableEq, Repr

structure ItemWalk where
  /-- The item's rows as stored after the walk. -/
  stored : List Movement
  /-- The rows whose figures changed, and the trigger's. -/
  changed : List Movement
  shares : List ShareMove
  warning : Option InventoryWarning

def RowResult.differs (m : Movement) (x : RowResult) : Prop :=
  m.value ≠ x.fig.value ∨ m.correction ≠ x.fig.correction ∨ m.residual ≠ x.fig.residual

instance (m : Movement) (x : RowResult) : Decidable (x.differs m) := by
  unfold RowResult.differs
  infer_instance

def RowResult.tooLarge (x : RowResult) : Prop := qtyLimit ≤ |x.after.q| ∨ moneyLimit ≤ |x.after.v|

instance (x : RowResult) : Decidable x.tooLarge := by
  unfold RowResult.tooLarge
  infer_instance

/-- Re-walks the item from `start`, for the document `trigger`, past the closing date. -/
def walkItem (itemId : Id) (stored : List Movement) (start : Pos) (trigger : Id)
    (lockDate : Option String) : Except CostingError ItemWalk :=
  if lockDate.any (fun d => (ofLex start).1 ≤ d) then .error .closedPeriod
  else do
    let pre := stored.filter (fun m => m.pos < start)
    let rows := stored.filter (fun m => start ≤ m.pos)
    let re ← (rewalk pre rows).mapError CostingError.walk
    checkStock trigger (stateOf pre.getLast?) rows re.own
    if re.own.any (fun x => x.tooLarge) then .error .tooLarge
    else
      let walked := rows.zip re.own
      return {
        stored := pre.map (fun m => if m ∈ re.replayed then moveShare m (re.share m) else m) ++
          walked.map (fun mx => pushRow mx.1 mx.2 (re.share mx.1))
        changed := (walked.filter fun mx => mx.2.differs mx.1 ∨ mx.1.transactionId = trigger).map
          fun mx => withFigures mx.1 mx.2.fig
        shares := (re.replayed ++ rows).filterMap fun m =>
          if m.kind = .sale ∧ re.share m ≠ m.correctionShare then
            some ⟨m.transactionId, itemId, toPlaces 2 m.correctionShare, toPlaces 2 (re.share m)⟩
          else none
        warning := negativeWarning itemId trigger rows re.own }

end MyBooks
