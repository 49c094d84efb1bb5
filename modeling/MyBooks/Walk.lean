import MyBooks.Rounding

/-!
# The average-cost walk of one item's stock ledger

`walk` replays the rows of one item in position order from a seed state and gives each row its
figures: its value, the correction of stock sold below zero, and the residual swept out when the
item runs out. Beside the running state it carries what the sales it has met cost and how much of
them came back, and the queue of units sold below zero that later inflows cure.

Amounts are exact. The sums and products of column values stay well inside the 40 digits the
source computes with, and of its quotients only the rounding to a few places is used, which 40
digits do not change (`toPlaces_quotient`).
-/

namespace MyBooks

abbrev Dec := ℚ
abbrev Id := String

def round2 (v : Dec) : Dec := toPlaces 2 v
def round6 (v : Dec) : Dec := toPlaces 6 v

abbrev Cents (v : Dec) : Prop := Places 2 v

/-- Figures computed to the cent. -/
abbrev CentAmount := { x : Dec // Cents x }

theorem Cents.round2 (v : Dec) : Cents (round2 v) := places_toPlaces 2 v

theorem round2_of_cents {v : Dec} (h : Cents v) : round2 v = v := toPlaces_of_places h

inductive MovementKind where
  | receipt | sale | customerReturn | vendorReturn | adjustQty | adjustValue
  deriving DecidableEq, Repr

inductive ValueMode where
  | given | derived | linked
  deriving DecidableEq, Repr

structure WalkState where
  q : Dec
  v : Dec
  /-- Last positive average, 0 when there is none yet. -/
  l : Dec
  deriving DecidableEq, Repr

def zeroState : WalkState := ⟨0, 0, 0⟩

/-- The effects of a row on the inventory asset account. -/
structure RowFigures where
  value : Dec
  correction : Dec
  residual : Dec
  deriving DecidableEq, Repr

structure WalkRow where
  id : Id
  transactionId : Option Id
  date : String
  kind : MovementKind
  quantity : Dec
  valueMode : ValueMode
  given : Option Dec
  sourceId : Option Id
  fallbackCost : Option Dec
  /-- A row before the walk start, replayed with its stored figures and state. -/
  fixed : Option (RowFigures × WalkState)
  deriving DecidableEq, Repr

structure RowResult where
  id : Id
  fig : RowFigures
  after : WalkState
  deriving DecidableEq, Repr

structure NegativeStock where
  rowId : Id
  date : String
  onHand : Dec
  deriving DecidableEq, Repr

/-- A sale as its linked returns see it: `r` its cost, `s` the units sold, `n` the units already
back and `b` the value they brought. -/
structure SaleLink where
  r : Dec
  s : Dec
  n : Dec
  b : Dec
  deriving DecidableEq, Repr

/-- A `Map` from ids, as the source reads it: by key. -/
abbrev IdMap (β : Type) := Id → Option β

def IdMap.set {β : Type} (m : IdMap β) (k : Id) (b : β) : IdMap β :=
  fun k' => if k' = k then some b else m k'

@[simp] theorem IdMap.set_self {β : Type} (m : IdMap β) (k : Id) (b : β) : m.set k b k = some b :=
  if_pos rfl

theorem IdMap.set_of_ne {β : Type} (m : IdMap β) {k k' : Id} (b : β) (h : k' ≠ k) :
    m.set k b k' = m k' :=
  if_neg h

structure WalkResult where
  rows : List RowResult
  negative : Option NegativeStock
  final : WalkState
  shares : IdMap Dec

inductive WalkError where
  | divisionByZero | returnWithoutSale
  deriving DecidableEq, Repr

/-- A quotient; a zero divisor, for which the source would go on with a non-number, is an error. -/
def dividedBy (a b : Dec) : Except WalkError Dec :=
  if b = 0 then .error .divisionByZero else .ok (a / b)

/-- The cost of a unit when there is no average to take: the last one, else the item's own. -/
def unitCost (s : WalkState) (fallbackCost : Option Dec) : Dec :=
  if 0 < s.l then s.l else fallbackCost.getD 0

/-- Relief of `q` units at cost. -/
def reliefAtCost (s : WalkState) (q : Dec) (fallbackCost : Option Dec) : Except WalkError Dec :=
  if 0 < s.q ∧ q ≤ s.q then do
    return round2 (← dividedBy (s.v * q) s.q)
  else
    let excess := q - max s.q 0
    return (if 0 < s.q then s.v else 0) + round2 (excess * unitCost s fallbackCost)

/-- Value of `r` units coming back in at cost. -/
def inflowAtCost (s : WalkState) (r : Dec) (fallbackCost : Option Dec) : Except WalkError Dec :=
  if 0 < s.q then do
    return round2 (← dividedBy (s.v * r) s.q)
  else
    return round2 (r * unitCost s fallbackCost)

def rowValue (s : WalkState) (row : WalkRow) : Except WalkError Dec :=
  if row.valueMode = .given then
    return row.given.getD 0
  else if row.quantity < 0 then do
    return -(← reliefAtCost s (-row.quantity) row.fallbackCost)
  else if 0 < row.quantity then
    inflowAtCost s row.quantity row.fallbackCost
  else
    return 0

/-- An inflow while the item is below zero re-prices the units it cures. -/
def rowCorrection (s : WalkState) (qty value : Dec) : Except WalkError Dec :=
  if 0 < qty ∧ s.q < 0 then do
    let k := min qty (-s.q)
    let new := round2 (← dividedBy (value * k) qty)
    let old := round2 (← dividedBy (-s.v * k) (-s.q))
    return -(new - old)
  else
    return 0

def lastCost (s : WalkState) (q v : Dec) : Except WalkError Dec :=
  if 0 < q ∧ 0 < v then do
    return round6 (← dividedBy v q)
  else
    return s.l

/-- The figures of one row from state `s`, and the state after it. -/
def stepRow (s : WalkState) (row : WalkRow) : Except WalkError (RowFigures × WalkState) := do
  let value ← rowValue s row
  let correction ← rowCorrection s row.quantity value
  let q := s.q + row.quantity
  let v := s.v + value + correction
  -- a row that runs the item out leaves no value behind
  let residual := if q = 0 ∧ v ≠ 0 then -v else 0
  let v := if q = 0 ∧ v ≠ 0 then 0 else v
  let l ← lastCost s q v
  return (⟨value, correction, residual⟩, ⟨q, v, l⟩)

/-- The value of `q` more units returned against `sale`: by cumulative difference, never below 0. -/
def linkedValue (sale : SaleLink) (q : Dec) : Except WalkError Dec :=
  if 0 < sale.s then do
    return max 0 (round2 (← dividedBy (sale.r * (sale.n + q)) sale.s) - sale.b)
  else
    return 0

/-- Units sold or taken out below zero; `saleId` is `none` for an outflow that is no sale. -/
structure ShortEntry where
  saleId : Option Id
  units : Dec
  deriving DecidableEq, Repr

/-- What one call of `take` did: the entry it took from held `held` units and gave up `units`. -/
structure Taken where
  saleId : Option Id
  held : Dec
  units : Dec
  share : Dec
  deriving DecidableEq, Repr

/-- The units taken so far by an inflow, the correction they stand for and the log of the takes. -/
structure Cure where
  taken : Dec
  given : Dec
  takes : List Taken
  deriving DecidableEq, Repr

def Cure.start : Cure := ⟨0, 0, []⟩

/-- Takes up to the rest of `k` units from `e`, and of the correction `c` the share up to there. -/
def take (k c : Dec) (cure : Cure) (e : ShortEntry) : Except WalkError (Cure × ShortEntry) :=
  let u := min e.units (k - cure.taken)
  if 0 < u then do
    let taken := cure.taken + u
    let upTo := round2 (← dividedBy (c * taken) k)
    let share := upTo - cure.given
    return (⟨taken, upTo, cure.takes ++ [⟨e.saleId, e.units, u, share⟩]⟩,
      { e with units := e.units - u })
  else
    return (cure, e)

/-- The pass over the units of the sale `src`. -/
def takeOwn (k c : Dec) (src : Id) :
    Cure → List ShortEntry → Except WalkError (Cure × List ShortEntry)
  | cure, [] => return (cure, [])
  | cure, e :: es =>
    if e.saleId = some src then do
      let (cure, e) ← take k c cure e
      let (cure, es) ← takeOwn k c src cure es
      return (cure, e :: es)
    else do
      let (cure, es) ← takeOwn k c src cure es
      return (cure, e :: es)

/-- The pass over the oldest units, until `k` are taken. -/
def takeOldest (k c : Dec) :
    Cure → List ShortEntry → Except WalkError (Cure × List ShortEntry)
  | cure, [] => return (cure, [])
  | cure, e :: es =>
    if cure.taken < k then do
      let (cure, e) ← take k c cure e
      let (cure, es) ← takeOldest k c cure es
      return (cure, e :: es)
    else
      return (cure, e :: es)

/-- A linked return cures its own sale's units first, then the oldest. -/
def cureShort (k c : Dec) (src : Option Id) (short : List ShortEntry) :
    Except WalkError (Cure × List ShortEntry) :=
  match src with
  | some id => do
    let (cure, short) ← takeOwn k c id Cure.start short
    takeOldest k c cure short
  | none => takeOldest k c Cure.start short

/-- The sale a row is, if it is one. -/
def WalkRow.saleId (row : WalkRow) : Option Id :=
  if row.kind = .sale then row.transactionId else none

/-- The sale a linked return names. -/
def WalkRow.linkedTo (row : WalkRow) : Option Id :=
  if row.valueMode = .linked then row.sourceId else none

/-- The queue after one row: an outflow below zero joins it, an inflow while below zero cures from
it. The second component is what the inflow took. -/
def trackShort (short : List ShortEntry) (before : WalkState) (row : WalkRow) (fig : RowFigures) :
    Except WalkError (List ShortEntry × List Taken) :=
  if row.quantity < 0 then
    let excess := -row.quantity - max before.q 0
    return (if 0 < excess then short ++ [⟨row.saleId, excess⟩] else short, [])
  else if 0 < row.quantity ∧ before.q < 0 then do
    let k := min row.quantity (-before.q)
    let c := -fig.correction
    let (cure, short) ← cureShort k c row.linkedTo short
    return (short.filter (fun e => 0 < e.units), cure.takes)
  else
    return (short, [])

structure WalkLoop where
  s : WalkState
  sales : IdMap SaleLink
  shares : IdMap Dec
  short : List ShortEntry
  negative : Option NegativeStock
  out : List RowResult

/-- A linked return of `qty` units that brought `value` back counts against its sale. -/
def takeBack (sales : IdMap SaleLink) (src : Option Id) (qty value : Dec) : IdMap SaleLink :=
  match src with
  | none => sales
  | some id =>
    match sales id with
    | none => sales
    | some sale => sales.set id { sale with n := sale.n + qty, b := sale.b + value }

/-- The row's figures and the state after it, and the sales with its units taken back. -/
def rowStep (w : WalkLoop) (row : WalkRow) :
    Except WalkError (RowFigures × WalkState × IdMap SaleLink) :=
  match row.fixed with
  | some (fig, after) => return (fig, after, takeBack w.sales row.linkedTo row.quantity fig.value)
  | none =>
    if row.valueMode = .linked then
      match row.sourceId.bind w.sales with
      | none => .error .returnWithoutSale
      | some sale => do
        let value ← linkedValue sale row.quantity
        let (fig, after) ← stepRow w.s { row with valueMode := .given, given := some value }
        return (fig, after, takeBack w.sales row.sourceId row.quantity value)
    else do
      let (fig, after) ← stepRow w.s row
      return (fig, after, w.sales)

/-- The sale a row registers: an outflow of a sale. -/
def WalkRow.registers (row : WalkRow) : Option Id :=
  if row.quantity < 0 then row.saleId else none

/-- A sale registers with its relief; units returned before it carry over. -/
def registerSale (sales : IdMap SaleLink) (row : WalkRow) (fig : RowFigures) : IdMap SaleLink :=
  match row.registers with
  | none => sales
  | some t =>
    let prev := sales t
    sales.set t ⟨-fig.value, -row.quantity, (prev.map (·.n)).getD 0, (prev.map (·.b)).getD 0⟩

def registerShare (shares : IdMap Dec) (row : WalkRow) : IdMap Dec :=
  match row.registers with
  | none => shares
  | some t => shares.set t 0

/-- The share of one take goes to the cost of its sale. -/
def attributeSale (sales : IdMap SaleLink) (t : Taken) : IdMap SaleLink :=
  match t.saleId with
  | none => sales
  | some id =>
    match sales id with
    | none => sales
    | some sale => if t.share = 0 then sales else sales.set id { sale with r := sale.r + t.share }

def attributeShare (shares : IdMap Dec) (t : Taken) : IdMap Dec :=
  match t.saleId with
  | none => shares
  | some id =>
    match shares id with
    | none => shares
    | some x => if t.share = 0 then shares else shares.set id (x + t.share)

def walkRow (w : WalkLoop) (row : WalkRow) : Except WalkError WalkLoop := do
  let (fig, after, sales) ← rowStep w row
  let (short, takes) ← trackShort w.short w.s row fig
  return {
    s := after
    sales := takes.foldl attributeSale (registerSale sales row fig)
    shares := takes.foldl attributeShare (registerShare w.shares row)
    short := short
    negative :=
      if w.negative = none ∧ 0 ≤ w.s.q ∧ after.q < 0 then some ⟨row.id, row.date, after.q⟩
      else w.negative
    out := w.out ++ [⟨row.id, fig, after⟩] }

def walkStart (seed : WalkState) (links : IdMap SaleLink) : WalkLoop where
  s := seed
  sales := links
  shares := fun _ => none
  short := if seed.q < 0 then [⟨none, -seed.q⟩] else []
  negative := none
  out := []

def walkRows (w : WalkLoop) (rows : List WalkRow) : Except WalkError WalkLoop :=
  rows.foldlM walkRow w

def noLinks : IdMap SaleLink := fun _ => none

def walk (seed : WalkState) (rows : List WalkRow) (links : IdMap SaleLink) :
    Except WalkError WalkResult := do
  let w ← walkRows (walkStart seed links) rows
  return ⟨w.out, w.negative, w.s, w.shares⟩

end MyBooks
