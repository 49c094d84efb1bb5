import MyBooks.EquityBlocks
import MyBooks.CashFlows

/-!
# The report

`computeFsReport` builds the balance sheet, takes rounded equity and cash from it, asks the equity
roll-forward what net income each range needs, builds the income statement towards that, and then the
equity statement and the cash flows from the rounded figures of both faces.
-/

namespace MyBooks

inductive FsStatementKind where
  | balanceSheet | incomeStatement | equity | cashFlows
  deriving DecidableEq, Repr

structure FsStatementConfig where
  id : Id
  kind : FsStatementKind
  enabled : Bool := true
  plugs : Entries Id Id := []
  body : List FsNode := []
  equity : FsEquityConfig := {}
  detailByAccount : Bool := false

structure FsLayout where
  statements : List FsStatementConfig
  schedules : Bool

inductive FsRendered where
  | face (kind : FsStatementKind) (rows : List FsRow)
  | equity (rollforward : EquityRollforward) (rows : List FsRow)
  | cashFlows (statement : CashFlowStatement)

structure FsReport where
  /-- The faces, also of statements that are not enabled. -/
  bs : Option FaceResult
  is : Option FaceResult
  statements : List FsRendered
  schedules : List (List FsRow)
  checks : List FsCheck

section Targets

variable (ctx : EngineCtx)

/-- The balance sheet's rounded amount of some accounts, by date, where they have lines of their
own. -/
def derive (bs : Option FaceResult) (pred : Id → Bool) (sign : FsPolarity) :
    Entries ℤ (Option ℤ) :=
  bs.elim [] fun bs => ctx.plan.bsPoints.zipIdx.foldl (fun (out : Entries ℤ (Option ℤ)) (p, i) =>
    let hits := bs.lines.filter fun l => l.1.accounts.any pred
    let ok := hits.all fun l => l.1.accounts.all pred && ((l.2[i]?).bind fun v => v).isSome
    out.set p.date (if ok then
      some ((hits.map fun l => if l.1.pol = sign then cellAt l.2 i else -cellAt l.2 i).sum)
      else none)) []

def equityTargetOf (bs : Option FaceResult) : Entries ℤ (Option ℤ) :=
  derive ctx bs (isEquity ctx) .credit

def cashTargetOf (bs : Option FaceResult) : Entries ℤ (Option ℤ) :=
  derive ctx bs (fun id => ctx.cfClass id = .cash) .debit

/-- The net income that the equity roll-forward needs in each column, when it is no more than a
rounding away. -/
def niTargets (rf : EquityRollforward) : List (Option ℤ) :=
  ctx.plan.isRanges.map fun r => do
    let t ← (rf.blocks.find? fun b => rangeId b.block.range = rangeId r).map (·.niTarget)
    let m ← ctx.plActivityUntagged r
    let exactNi := -m.total
    if |t - roundTo exactNi ctx.unit| ≤ 5 * ctx.unit then some t else none

/-- The rounded net income of each range of the income statement. -/
def niRoundedOf (is : Option FaceResult) : Entries (ℤ × ℤ) (Option ℤ) :=
  (is.bind fun is => is.roleRounded .netIncome).elim [] fun ni =>
    (ctx.plan.isRanges.zip ni).foldl (fun (out : Entries (ℤ × ℤ) (Option ℤ)) p =>
      out.set (rangeId p.1) p.2) []

end Targets

section Compute

variable (coll : Collation) (settings : FsReportSettings) (style : FsNumberStyle)
  (source : FsSourceData) (layout : FsLayout)

def configOf (kind : FsStatementKind) : Option FsStatementConfig :=
  layout.statements.find? fun s => s.kind = kind

def indexOfKind (kind : FsStatementKind) : Option ℕ :=
  layout.statements.findIdx? fun s => s.kind = kind

def bsOptions (ctx : EngineCtx) : FaceOptions where
  scope := .bs
  bal := ctx.plan.bsPoints.map fun p => ctx.bsClosed p.date

def isOptions (ctx : EngineCtx) (targets : List (Option ℤ)) : FaceOptions where
  scope := .pl
  bal := ctx.plan.isRanges.map fun r =>
    if (ctx.plActivityUntagged r).isSome then ctx.plActivity r else none
  netIncomeTargets := targets

def faceOf (ctx : EngineCtx) (st : FsStatementConfig) (opt : FaceOptions) : FaceResult :=
  buildFace ctx coll layout.schedules st.plugs st.body opt st.id

def computeFsReport : FsReport :=
  let ctx := buildContext settings style source
  let bsCfg := configOf layout .balanceSheet
  let isCfg := configOf layout .incomeStatement
  let eqCfg := configOf layout .equity
  let bs := bsCfg.map fun st => faceOf coll layout ctx st (bsOptions ctx)
  let equityTarget := equityTargetOf ctx bs
  let cashTarget := cashTargetOf ctx bs
  let tagged := settings.tagId.isSome
  let targets := if tagged then [] else
    (equityRollforward ctx coll ⟨[], equityTarget⟩ (eqCfg.elim {} (·.equity))).elim [] (niTargets ctx)
  let is := isCfg.map fun st => faceOf coll layout ctx st (isOptions ctx targets)
  let niRounded := niRoundedOf ctx is
  let faces : Entries Id FaceResult := layout.statements.zipIdx.foldl (fun m (st, i) =>
    let face := if some i = indexOfKind layout .balanceSheet then bs
      else if some i = indexOfKind layout .incomeStatement then is else none
    if st.enabled then face.elim m fun f => Entries.set m st.id f else m) []
  let render (st : FsStatementConfig) : List (FsRendered × List (List FsRow) × List FsCheck) :=
    match st.kind with
    | .balanceSheet | .incomeStatement =>
      (faces.get? st.id).elim [] fun f => [(.face st.kind f.rows, f.schedules, f.checks)]
    | .equity =>
      if tagged then []
      else (equityRollforward ctx coll ⟨niRounded, equityTarget⟩ st.equity).elim [] fun rf =>
        [(.equity rf (equityRows ctx st.equity rf), [],
          equityChecks ctx ⟨niRounded, equityTarget⟩ st.id rf)]
    | .cashFlows =>
      if tagged then []
      else (buildCashFlows ctx st.id st.detailByAccount ⟨niRounded, cashTarget⟩).elim [] fun cf =>
        [(.cashFlows cf, [], cf.checks)]
  let rendered := (layout.statements.filter (·.enabled)).flatMap render
  { bs, is
    statements := rendered.map Prod.fst
    schedules := if layout.schedules then rendered.flatMap fun r => r.2.1 else []
    checks := rendered.flatMap fun r => r.2.2 }

end Compute

end MyBooks
