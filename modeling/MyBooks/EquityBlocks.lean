import MyBooks.FsRows

/-!
# The statement of changes in equity

A roll-forward from the closed balance sheet before each range to the one at its end, one cell per
equity column. The last column holds the account that income is closed into. A block that follows on
the one before starts with that one's rounded ending, and its ending is anchored to the rounded
balance sheet (`EqBlock`s by `rollBlock`).
-/

namespace MyBooks

inductive FsEquityColumns where
  | auto | single | byAccount
  deriving DecidableEq, Repr

structure FsEquityConfig where
  columns : FsEquityColumns := .auto
  /-- `layout` is by columns, else stacked. -/
  byColumns : Bool := false
  deriving DecidableEq, Repr

structure EquityInputs where
  niRounded : Entries (ℤ × ℤ) (Option ℤ)
  equityTarget : Entries ℤ (Option ℤ)

/-- The rows of a block in one column. -/
structure EqCell where
  begin : ℤ
  ni : ℤ
  contrib : ℤ
  dist : ℤ
  other : ℤ
  ending : ℤ
  deriving DecidableEq, Repr

namespace EqCell

def colSum (r : EqCell) : ℤ := r.begin + r.ni + r.contrib + r.dist + r.other

/-- A difference goes on the largest of the exact other changes, distributions and contributions. -/
def plugInto (e r : EqCell) (diff : ℤ) : EqCell :=
  if |e.other| ≥ |e.dist| ∧ |e.other| ≥ |e.contrib| then { r with other := r.other + diff }
  else if |e.dist| ≥ |e.contrib| then { r with dist := r.dist + diff }
  else { r with contrib := r.contrib + diff }

/-- Adds what is missing to the target, and closes the column. -/
def close (e r : EqCell) (target : ℤ) : EqCell :=
  let r := if r.colSum = target then r else e.plugInto r (target - r.colSum)
  { r with ending := r.colSum }

end EqCell

structure EqCol where
  accounts : List Id
  hasFold : Bool
  deriving DecidableEq, Repr

structure Block where
  range : FsPlanRange
  openDate : ℤ
  contiguous : Bool
  deriving DecidableEq, Repr

/-- A block's rounded columns, the one of the fold account last. -/
structure EqBlock where
  block : Block
  others : List EqCell
  fold : EqCell
  /-- The net income that the block needs to end at the rounded balance sheet. -/
  niTarget : ℤ
  /-- The fold column did not close with the net income given. -/
  plugged : Bool
  deriving DecidableEq, Repr

namespace EqBlock

def cells (b : EqBlock) : List EqCell := b.others ++ [b.fold]

def endings (b : EqBlock) : List ℤ := b.cells.map EqCell.ending

end EqBlock

structure EquityRollforward where
  others : List EqCol
  fold : EqCol
  blocks : List EqBlock
  deriving DecidableEq, Repr

section Rollforward

variable (ctx : EngineCtx) (coll : Collation) (inp : EquityInputs)

def roleOf (id : Id) : FsEquityRole :=
  if id = ctx.source.reAccountId then .retained else (ctx.source.equityRoles.get? id).getD .other

def isEquity (id : Id) : Bool := ctx.typeOf id = some .equity

/-- The blocks with a closing workpaper. Each may follow on the one before it. -/
def equityBlocks : List Block :=
  ctx.plan.equityBlocks.foldl (fun (blocks : List Block) range =>
    if (ctx.bsClosed range.stop).isNone then blocks
    else
      let openDate := fsAddDays range.start (-1)
      blocks ++ [⟨range, openDate, blocks.getLast?.any fun prev => prev.range.stop = openDate⟩]) []

def openOf (b : Block) : Balances := (ctx.bsClosed b.openDate .opening).getD []

def closeOf (b : Block) : Balances := (ctx.bsClosed b.range.stop).getD []

/-- The equity accounts with a balance at some block's ends, and the fold account. -/
def equityIds (blocks : List Block) : List Id :=
  ((blocks.flatMap fun b => (openOf ctx b ++ closeOf ctx b).filterMap fun e =>
    if isEquity ctx e.1 ∧ e.2 ≠ 0 then some e.1 else none) ++ [ctx.source.reAccountId]).eraseDups

/-- By account, retained earnings and distributions share the column of the fold account. -/
def equityCols (cfg : FsEquityConfig) (ids : List Id) : List EqCol × EqCol :=
  if cfg.columns = .byAccount ∨ cfg.columns = .auto ∧ ctx.source.entityKind = .corporation then
    let inFold (id : Id) : Bool := id = ctx.source.reAccountId ∨ roleOf ctx id = .retained ∨
      roleOf ctx id = .distributions
    let others := ((ids.filter fun id => !inFold id).filterMap ctx.accounts.get?).insertionSort
      fun a b => compareAccountNumbers coll a b ≠ .gt
    (others.map fun a => ⟨[a.id], false⟩, ⟨ids.filter inFold, true⟩)
  else ([], ⟨ids, true⟩)

/-- A block's exact figures in a column. -/
def exactCell (b : Block) (col : EqCol) : EqCell :=
  let o (id : Id) : ℤ := ((openOf ctx b).get? id).getD 0
  let c (id : Id) : ℤ := ((closeOf ctx b).get? id).getD 0
  let change (role : FsEquityRole) : ℤ :=
    ((col.accounts.filter fun id => roleOf ctx id = role).map fun id => -(c id - o id)).sum
  let begin := (col.accounts.map fun id => -(o id)).sum
  let ending := (col.accounts.map fun id => -(c id)).sum
  let ni := if col.hasFold then -((ctx.plActivityUntagged b.range).getD []).total else 0
  let dist := change .distributions
  let contrib := change .contributions
  { begin, ni, contrib, dist, other := ending - begin - ni - dist - contrib, ending }

/-- The figures rounded one by one, without net income and ending. -/
def roundedCell (e : EqCell) (begin : Option ℤ) : EqCell where
  begin := begin.getD (roundTo e.begin ctx.unit)
  ni := 0
  contrib := roundTo e.contrib ctx.unit
  dist := roundTo e.dist ctx.unit
  other := roundTo e.other ctx.unit
  ending := 0

def rollBlock (cols : List EqCol × EqCol) (b : Block) (prevEnd : Option (List ℤ)) : EqBlock :=
  let carried := if b.contiguous then prevEnd else none
  let begins (i : ℕ) : Option ℤ := carried.bind fun p => p[i]?
  let exacts := cols.1.map (exactCell ctx b)
  let e := exactCell ctx b cols.2
  let rounded : List (EqCell × EqCell) :=
    exacts.zipIdx.map fun (e, i) => (e, roundedCell ctx e (begins i))
  let others := rounded.map fun (e, r) => e.close r (roundTo e.ending ctx.unit)
  let r := roundedCell ctx e (begins cols.1.length)
  let beginTarget := if b.contiguous then none else (inp.equityTarget.get? b.openDate).bind fun t => t
  let begun := (rounded.map fun (p : EqCell × EqCell) => p.2.begin).sum + r.begin
  let r := { r with begin := r.begin + beginTarget.elim 0 fun t => t - begun }
  let totalTarget := ((inp.equityTarget.get? b.range.stop).bind fun t => t).getD
    (roundTo ((exacts.map EqCell.ending).sum + e.ending) ctx.unit)
  let foldEnd := totalTarget - (others.map EqCell.ending).sum
  let niTarget := foldEnd - r.colSum
  let r := { r with
    ni := ((inp.niRounded.get? (rangeId b.range)).bind fun n => n).getD niTarget }
  { block := b, others, fold := e.close r foldEnd, niTarget, plugged := r.colSum ≠ foldEnd }

/-- The blocks one after another, each with the endings of the one before. -/
def rollBlocks (cols : List EqCol × EqCol) : List Block → Option (List ℤ) → List EqBlock
  | [], _ => []
  | b :: bs, prevEnd =>
    let r := rollBlock ctx inp cols b prevEnd
    r :: rollBlocks cols bs (some r.endings)

def equityRollforward (cfg : FsEquityConfig) : Option EquityRollforward :=
  let blocks := equityBlocks ctx
  if blocks = [] then none
  else
    let cols := equityCols ctx coll cfg (equityIds ctx blocks)
    some ⟨cols.1, cols.2, rollBlocks ctx inp cols blocks none⟩

/-- The checks of a roll-forward that is shown. -/
def equityChecks (id : Id) (rf : EquityRollforward) : List FsCheck :=
  rf.blocks.flatMap fun b =>
    (if b.plugged then [{ code := .equityRounding, statementId := id }] else []) ++
      if ((inp.equityTarget.get? b.block.range.stop).bind fun t => t).isNone ∧
          ctx.plan.bsPoints.any fun p => p.date = b.block.range.stop then
        [{ code := .equityNotTied, statementId := id }]
      else []

end Rollforward

section Rows

/-- The rows between beginning and ending: net income always, the others where there are any. -/
def activityRows (row : (EqCell → ℤ) → List ℤ) : List FsRow :=
  ({ kind := .detail, values := (row EqCell.ni).map some } : FsRow) ::
    ([EqCell.contrib, EqCell.dist, EqCell.other].filter fun k => (row k).any fun v => v ≠ 0).map
      fun k => { kind := .detail, values := (row k).map some }

/-- The columns of a block, and their total where there are several. -/
def blockRow (b : EqBlock) (k : EqCell → ℤ) : List ℤ :=
  let vals := b.cells.map k
  if b.others ≠ [] then vals ++ [vals.sum] else vals

def endRow (values : List ℤ) (first last : ℕ) : FsRow where
  kind := .total
  values := values.map some
  formula := some (formulaOf ((List.range' first (last - first)).map fun row => (row, 1)))

/-- A block's rows after those before it. A block that follows on the one before takes its ending row
as the beginning. -/
def stackBlock (rows : List FsRow) (b : EqBlock) : List FsRow :=
  let start : List FsRow × ℕ :=
    if b.block.contiguous then (rows, rows.length - 1)
    else
      let gap : List FsRow :=
        if rows ≠ [] then [{ kind := .blank, values := (blockRow b EqCell.begin).map fun _ => none }]
        else []
      (rows ++ gap ++ [{ kind := .total, values := (blockRow b EqCell.begin).map some }],
        (rows ++ gap).length)
  let withActivity := start.1 ++ activityRows (blockRow b)
  withActivity ++ [endRow (blockRow b EqCell.ending) start.2 withActivity.length]

/-- One column for each range of the income statement that has a block, its columns added up. -/
def columnRows (blocks : List EqBlock) : List FsRow :=
  let row (k : EqCell → ℤ) : List ℤ := blocks.map fun b => (b.cells.map k).sum
  let rows : List FsRow :=
    { kind := .total, values := (row EqCell.begin).map some } :: activityRows row
  rows ++ [endRow (row EqCell.ending) 0 rows.length]

/-- `buildEquity` on a roll-forward. -/
def equityRows (ctx : EngineCtx) (cfg : FsEquityConfig) (rf : EquityRollforward) : List FsRow :=
  let ranges := ctx.plan.isRanges.filterMap fun r =>
    rf.blocks.find? fun b => rangeId b.block.range = rangeId r
  if cfg.byColumns ∧ ranges ≠ [] then columnRows ranges
  else rf.blocks.foldl stackBlock []

end Rows

end MyBooks
