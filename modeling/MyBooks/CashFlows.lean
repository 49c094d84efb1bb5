import MyBooks.FsSource

/-!
# The statement of cash flows

By the indirect method: every balance sheet account that is not cash contributes the change of its
closed balance, the other way round, to a line of its class. The account that the year's income is
closed into contributes its change less that income, which starts the statement. What that misses of
the change in cash is reported (`CfYear.unreconciled`). Then the lines are rounded one by one and
what the rounded change in cash is off by goes on one of them.
-/

namespace MyBooks

structure CashFlowInputs where
  /-- Rounded net income by `rangeId`, from the income statement. -/
  niRounded : Entries (ℤ × ℤ) (Option ℤ)
  /-- Rounded cash at balance sheet dates. -/
  cashTarget : Entries ℤ (Option ℤ)

/-- A range's cash and the changes of the other accounts. -/
structure CfYear where
  cashBegin : ℤ := 0
  cashEnd : ℤ := 0
  niSigned : ℤ
  sumEffects : ℤ := 0
  effects : Balances := []
  excluded : List Id := []
  deriving DecidableEq, Repr

namespace CfYear

/-- The loop's step for the account `id`. -/
def step (ctx : EngineCtx) (opening close : Balances) (s : CfYear) (id : Id) : CfYear :=
  let o := (opening.get? id).getD 0
  let c := (close.get? id).getD 0
  if (ctx.typeOf id).any isBsType then
    if ctx.cfClass id = .cash then
      { s with cashBegin := s.cashBegin + o, cashEnd := s.cashEnd + c }
    else
      let delta := if id = ctx.source.reAccountId then c - o - s.niSigned else c - o
      let effect := -delta
      if effect = 0 then s
      else if ctx.cfClass id = .excluded then { s with excluded := s.excluded ++ [id] }
      else { s with
        effects := s.effects.set id effect, sumEffects := s.sumEffects + effect }
  else s

/-- Change in cash less net income and the classified changes. -/
def unreconciled (s : CfYear) : ℤ := (s.cashEnd - s.cashBegin) - (-s.niSigned + s.sumEffects)

end CfYear

/-- The keys of two maps, each once. -/
def unionKeys (a b : Balances) : List Id := a.keys ++ b.keys.filter (· ∉ a.keys)

/-- A range's effects. A range without a closing workpaper has none. -/
def cashYear (ctx : EngineCtx) (y : FsPlanRange) : Option CfYear :=
  (ctx.bsClosed y.stop).map fun close =>
    let opening := (ctx.bsClosed (fsAddDays y.start (-1)) .opening).getD []
    let niSigned := ((ctx.plActivityUntagged y).getD []).total
    (unionKeys opening close).foldl (CfYear.step ctx opening close) { niSigned }

inductive CfKey where
  | depr
  | equity (cls : FsCashFlowClass) (role : FsEquityRole)
  | of (cls : FsCashFlowClass) (id : Id)
  deriving DecidableEq, Repr

/-- The line that an account's change goes to. -/
def cfKey (ctx : EngineCtx) (detailByAccount : Bool) (id : Id) (cls : FsCashFlowClass) : CfKey :=
  let a := ctx.accounts.get? id
  if cls = .noncashAdjustment ∧ a.any fun a => fsIsAccumulatedDepreciation a.name a.detailType then
    .depr
  else if ctx.typeOf id = some .equity then
    .equity cls (if id = ctx.source.reAccountId then .retained
      else (ctx.source.equityRoles.get? id).getD .other)
  else if detailByAccount then .of cls id
  else .of cls ((ctx.groupingOfAccount id).elim id (·.id))

structure CfLine where
  cls : FsCashFlowClass
  /-- The exact amount in each range of the plan. -/
  exact : ℕ → ℤ := fun _ => 0

/-- The lines, in the order of their first effects. -/
def cfLines (ctx : EngineCtx) (detailByAccount : Bool) (years : List (Option CfYear)) :
    Entries CfKey CfLine :=
  years.zipIdx.foldl (fun lines (year, yi) =>
    (year.elim [] CfYear.effects).foldl (fun (lines : Entries CfKey CfLine) (id, effect) =>
      let cls := ctx.cfClass id
      lines.update (cfKey ctx detailByAccount id cls) fun l =>
        let l := l.getD { cls }
        { l with exact := fun i => if i = yi then l.exact i + effect else l.exact i }) lines) []

/-- Of the lines of a range, the one that the rounding difference goes on: a working capital change
if there is one, as close as can be to its exact amount. -/
def cfPlugLine (unit : ℤ) (exacts : List (FsCashFlowClass × ℤ)) (diff : ℤ) : Option ℕ :=
  let all := exacts.zipIdx.filter fun l => l.1.2 ≠ 0
  let operating := all.filter fun l => l.1.1 = .operating
  let pool := if operating ≠ [] then operating else all
  let off (l : (FsCashFlowClass × ℤ) × ℕ) := |roundTo l.1.2 unit + diff - l.1.2|
  ((pool.insertionSort fun a b => off a < off b ∨ off a = off b ∧ |b.1.2| ≤ |a.1.2|).head?).map
    Prod.snd

/-- A range's rounded figures. -/
structure CfFigures where
  ni : ℤ
  cashBegin : ℤ
  cashEnd : ℤ
  /-- The rounded lines, in order. -/
  lines : List ℤ
  /-- A difference that could not be placed. -/
  unplaced : Option ℤ := none
  deriving DecidableEq, Repr

namespace CfFigures

/-- The lines rounded one by one, then the net change anchored. -/
def settle (unit : ℤ) (exacts : List (FsCashFlowClass × ℤ)) (ni cashBegin cashEnd : ℤ) :
    CfFigures :=
  let rounded := exacts.map fun l => roundTo l.2 unit
  let diff := (cashEnd - cashBegin) - (ni + rounded.sum)
  if diff = 0 then { ni, cashBegin, cashEnd, lines := rounded }
  else
    match cfPlugLine unit exacts diff with
    | some i => { ni, cashBegin, cashEnd, lines := rounded.modify i (· + diff) }
    | none => { ni, cashBegin, cashEnd, lines := rounded, unplaced := some diff }

def netChange (f : CfFigures) : ℤ := f.cashEnd - f.cashBegin

end CfFigures

structure CfSection where
  /-- The lines shown, by their place among all of them. -/
  lines : List ℕ
  withNi : Bool
  deriving DecidableEq, Repr

structure CashFlowStatement where
  years : List FsPlanRange
  lines : List (CfKey × FsCashFlowClass)
  figures : List (Option CfFigures)
  sections : List CfSection
  checks : List FsCheck
  deriving DecidableEq, Repr

namespace CashFlowStatement

variable (st : CashFlowStatement)

def nonZero (figures : List (Option CfFigures)) (i : ℕ) : Bool :=
  figures.any fun f => f.any fun f => f.lines.getD i 0 ≠ 0

/-- The lines of some classes that are not zero in every range, class by class. -/
def members (lines : List (CfKey × FsCashFlowClass)) (figures : List (Option CfFigures))
    (classes : List FsCashFlowClass) : List ℕ :=
  classes.flatMap fun cls => (lines.zipIdx.filter fun l => l.1.2 = cls ∧ nonZero figures l.2).map
    Prod.snd

/-- A section's total in a range. -/
def sectionTotal (s : CfSection) (f : CfFigures) : ℤ :=
  (if s.withNi then f.ni else 0) + (s.lines.map fun i => f.lines.getD i 0).sum

end CashFlowStatement

open CashFlowStatement in
/-- `buildCashFlows`. There is no statement without a workpaper at the end of the first range. -/
def buildCashFlows (ctx : EngineCtx) (id : Id) (detailByAccount : Bool) (inp : CashFlowInputs) :
    Option CashFlowStatement :=
  let ranges := ctx.plan.cfRanges
  let years := ranges.map (cashYear ctx)
  if (years.head?.bind fun y => y).isSome then
    let lines := cfLines ctx detailByAccount years
    let excluded := years.flatMap fun y => y.elim [] CfYear.excluded
    let unreconciled := years.filterMap fun year => year.bind fun year =>
      if year.unreconciled ≠ 0 then
        some ({ code := .cfUnreconciled, statementId := id, amount := some year.unreconciled
                accountIds := excluded.eraseDups } : FsCheck)
      else none
    let figures := (ranges.zip years).zipIdx.map fun ((y, year), yi) => year.map fun year =>
      CfFigures.settle ctx.unit (lines.map fun l => (l.2.cls, l.2.exact yi))
        (((inp.niRounded.get? (rangeId y)).bind fun v => v).getD
          (roundTo (-year.niSigned) ctx.unit))
        (((inp.cashTarget.get? (fsAddDays y.start (-1))).bind fun v => v).getD
          (roundTo year.cashBegin ctx.unit))
        (((inp.cashTarget.get? y.stop).bind fun v => v).getD (roundTo year.cashEnd ctx.unit))
    let unplaced := figures.filterMap fun f => f.bind fun f => f.unplaced.map fun diff =>
      ({ code := .roundingUnplaced, statementId := id, amount := some diff } : FsCheck)
    let classes := lines.map fun l => (l.1, l.2.cls)
    let part (cls : List FsCashFlowClass) (withNi : Bool) : List CfSection :=
      let ms := members classes figures cls
      if withNi ∨ ms ≠ [] then [⟨ms, withNi⟩] else []
    some
      { years := ranges, lines := classes, figures
        sections := part [.noncashAdjustment, .operating] true ++ part [.investing] false ++
          part [.financing] false
        checks := unreconciled ++ unplaced }
  else none

end MyBooks
