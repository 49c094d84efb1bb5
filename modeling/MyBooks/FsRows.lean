import MyBooks.FsFace
import Mathlib.Data.List.DropRight

/-!
# The rows of a face, and their formulas

`emit` walks the nodes and makes a row for every heading, line and total. Rows of nothing but zeros
may be hidden. A formula gives a total's row from the visible rows of what the total adds up: where
a node has no visible row its own parts stand for it (`valueTerms`), and rows that occur several times
are collapsed (`formulaOf`).
-/

namespace MyBooks

inductive FsRowKind where
  | heading | detail | total | text | blank | pageBreak
  deriving DecidableEq, Repr

inductive FsRowFormula where
  | sum (rows : List ℕ)
  | terms (terms : List (ℕ × ℤˣ))
  deriving DecidableEq

structure FsRow where
  kind : FsRowKind
  /-- One entry for each amount column, in the engine's units. -/
  values : List (Option ℤ)
  formula : Option FsRowFormula := none
  deriving DecidableEq

namespace FsRowFormula

def toTerms : FsRowFormula → List (ℕ × ℤˣ)
  | sum rows => rows.map fun row => (row, 1)
  | terms ts => ts

/-- What the formula comes to in a column. A row without an amount there counts as zero. -/
def eval (f : FsRowFormula) (rows : List FsRow) (c : ℕ) : ℤ :=
  (f.toTerms.map fun t => (t.2 : ℤ) * (rows[t.1]?).elim 0 fun r => cellAt r.values c).sum

end FsRowFormula

/-- Every row with a formula comes to what the formula gives, in every column where it shows an
amount. -/
def Recomputes (rows : List FsRow) : Prop :=
  ∀ r ∈ rows, ∀ f ∈ r.formula, ∀ c v, r.values[c]? = some (some v) → f.eval rows c = v

/-- How often each row counts, net of signs. -/
def netCounts (terms : List (ℕ × ℤˣ)) : Entries ℕ ℤ :=
  terms.foldl (fun net t => net.add t.1 t.2) []

/-- The rows that count, each once. -/
def formulaOf (terms : List (ℕ × ℤˣ)) : FsRowFormula :=
  let clean := ((netCounts terms).filter fun e => e.2 ≠ 0).map fun e =>
    (e.1, if 0 < e.2 then (1 : ℤˣ) else -1)
  if clean.all fun t => t.2 = 1 then .sum (clean.map Prod.fst) else .terms clean

inductive RowRef where
  | line (l : Line)
  | totalOf (id : Id)
  | node (id : Id)
  deriving DecidableEq

structure Pending where
  kind : FsRowKind
  amounts : List (Option ℤ)
  ref : Option RowRef := none
  hidden : Bool := false
  deriving DecidableEq

def isZero (amounts : List (Option ℤ)) : Bool := amounts.all fun v => v = none ∨ v = some 0

/-- A face with its columns rounded. -/
structure FaceCtx where
  style : FsNumberStyle
  bal : List (Option Balances)
  index : Index
  settled : ℕ → ColumnRounding

namespace FaceCtx

variable (f : FaceCtx)

/-- An amount of each available column. -/
def perColumn (amount : ℕ → ℤ) : List (Option ℤ) :=
  f.bal.zipIdx.map fun (m, c) => m.map fun _ => amount c

def roundedAt (c : ℕ) (l : Line) : ℤ := cellAt l.rounded c + (f.settled c).plug l

def lineAmounts (l : Line) : List (Option ℤ) := f.perColumn fun c => f.roundedAt c l

def valueOf (e : ENode) (c : ℕ) : ℤ := (contrib f.index e).weigh (f.roundedAt c)

def exactOf (e : ENode) (c : ℕ) : ℤ := (contrib f.index e).weigh fun l => cellAt l.exact c

def nodeAmounts (e : ENode) : List (Option ℤ) := f.perColumn (f.valueOf e)

def noPlug (l : Line) : Bool :=
  f.bal.zipIdx.all fun (m, c) => m.isNone || decide ((f.settled c).plug l = 0)

def blanks : List (Option ℤ) := f.bal.map fun _ => none

/-- A line that is zero throughout, with no plug on it, may be hidden. -/
def lineHidden (hideWhenZero : Option Bool) (l : Line) : Bool :=
  hideWhenZero.getD f.style.hideZeroLines && isZero (f.lineAmounts l) && f.noPlug l

mutual

/-- The rows of a node, and whether any of them is visible. -/
def emit : ENode → List Pending × Bool
  | .mk node top pol lines schedule children =>
    let e := ENode.mk node top pol lines schedule children
    match node with
    | .sectionNode i a _ =>
      let heading : List Pending :=
        if a.showHeading ∧ a.caption ≠ "" then [{ kind := .heading, amounts := f.blanks }] else []
      let inner := emitAll children
      let amounts := f.nodeAmounts e
      let total : List Pending :=
        if a.showTotal then [{ kind := .total, amounts, ref := some (.totalOf i) }] else []
      let rows := heading ++ inner.1 ++ total
      if !inner.2 && a.hideWhenZero.getD f.style.hideZeroLines && isZero amounts &&
          a.role.isNone then
        (rows.map fun r => { r with hidden := true }, false)
      else (rows, true)
    | .leadsheetNode i a =>
      if a.display = .detail then
        let withHeading := a.showHeading.getD top
        let withTotal := a.showTotal.getD top
        let heading : List Pending :=
          if withHeading ∧ (a.caption ≠ "" ∨ lines ≠ []) then
            [{ kind := .heading, amounts := f.blanks }]
          else []
        let detail : List Pending := lines.map fun l =>
          { kind := .detail, amounts := f.lineAmounts l, ref := some (.line l)
            hidden := f.lineHidden a.hideWhenZero l }
        let total : List Pending :=
          if withTotal then
            [{ kind := .total, amounts := f.nodeAmounts e, ref := some (.totalOf i) }]
          else []
        (heading ++ detail ++ total,
          (detail.any fun r => !r.hidden) || withHeading || withTotal)
      else
        let rows : List Pending := lines.map fun l =>
          { kind := .detail, amounts := f.lineAmounts l, ref := some (.line l)
            hidden := f.lineHidden a.hideWhenZero l && !a.anchor }
        (rows, rows.any fun r => !r.hidden)
    | .accountNode _ a =>
      let rows : List Pending := lines.map fun l =>
        { kind := .detail, amounts := f.lineAmounts l, ref := some (.line l)
          hidden := f.lineHidden a.hideWhenZero l }
      (rows, rows.any fun r => !r.hidden)
    | .totalNode i a =>
      let amounts := f.nodeAmounts e
      let hidden := isZero amounts && a.role.isNone && decide (a.hideWhenZero = some true)
      ([{ kind := .total, amounts, ref := some (.node i), hidden }], !hidden)
    | .textNode _ => ([{ kind := .text, amounts := f.blanks }], true)
    | .blankNode _ => ([{ kind := .blank, amounts := f.blanks }], false)
    | .pageBreakNode _ => ([{ kind := .pageBreak, amounts := f.blanks }], false)

def emitAll : List ENode → List Pending × Bool
  | [] => ([], false)
  | e :: es => ((emit e).1 ++ (emitAll es).1, (emit e).2 || (emitAll es).2)

end

/-- The rows that are not hidden, without leading, repeated and trailing blank rows. -/
def visible (out : List Pending) : List Pending :=
  (out.foldl (fun (rows : List Pending) r =>
    if r.hidden then rows
    else if r.kind = .blank ∧
        (rows.getLast?.elim true fun prev => prev.kind = .blank ∨ prev.kind = .pageBreak) then rows
    else rows ++ [r]) []).rdropWhile fun r => r.kind = .blank

/-- The row of a line, a total or a node: the last one, if there were several. -/
def rowOf (rows : List Pending) (ref : RowRef) : Option ℕ :=
  (rows.zipIdx.reverse.find? fun r => r.1.ref = some ref).map Prod.snd

/-- The visible rows that a node's value is made of. -/
def valueTerms (rows : List Pending) : ℕ → ENode → ℤˣ → Option (List (ℕ × ℤˣ))
  | 0, _, _ => none
  | depth + 1, e, sign =>
    let ofLines := some (e.lines.filterMap fun l => (rowOf rows (.line l)).map fun r => (r, sign))
    match e.node with
    | .sectionNode i _ _ =>
      match rowOf rows (.totalOf i) with
      | some r => some [(r, sign)]
      | none => ((e.children.filter fun ch => !ch.node.skipped).mapM fun ch =>
          valueTerms rows depth ch (if ch.pol = e.pol then sign else -sign)).map List.flatten
    | .totalNode i a =>
      match rowOf rows (.node i) with
      | some r => some [(r, sign)]
      | none => (a.terms.mapM fun t => (f.index.get? t.nodeId).bind fun target =>
          valueTerms rows depth target (sign * t.sign)).map List.flatten
    | .leadsheetNode i a =>
      match if a.display = .detail then rowOf rows (.totalOf i) else none with
      | some r => some [(r, sign)]
      | none => ofLines
    | .accountNode .. => ofLines
    | _ => some []

/-- The terms of a row's formula, if it has one. -/
def rowTerms (rows : List Pending) (r : Pending) : Option (List (ℕ × ℤˣ)) :=
  match r.ref with
  | some (.totalOf i) => (f.index.get? i).bind fun e =>
    match e.node with
    | .sectionNode .. => ((e.children.filter fun ch => !ch.node.skipped).mapM fun ch =>
        valueTerms f rows 51 ch (if ch.pol = e.pol then 1 else -1)).map List.flatten
    | _ => some (e.lines.filterMap fun l => (rowOf rows (.line l)).map fun r => (r, 1))
  | some (.node i) => (f.index.get? i).bind fun e =>
    match e.node with
    | .totalNode _ a => (a.terms.mapM fun t => (f.index.get? t.nodeId).bind fun target =>
        valueTerms f rows 51 target t.sign).map List.flatten
    | _ => none
  | _ => none

def rowsOf (roots : List ENode) : List FsRow :=
  let rows := visible (f.emitAll roots).1
  rows.map fun r =>
    { kind := r.kind, values := r.amounts, formula := (f.rowTerms rows r).map formulaOf }

/-- A schedule's lines and their total. -/
def scheduleRows (sb : ScheduleBuild) : List FsRow :=
  let lines : List FsRow := (sb.lines.filter fun l =>
    !(f.style.hideZeroLines && isZero l.rounded && !l.plugged)).map fun l =>
      { kind := .detail, values := l.rounded }
  lines ++ [{ kind := .total, values := sb.totalRounded
              formula := some (.sum (List.range lines.length)) }]

end FaceCtx

structure FaceResult where
  rows : List FsRow
  schedules : List (List FsRow)
  roleRounded : FsNodeRole → Option (List (Option ℤ))
  roleExact : FsNodeRole → Option (List (Option ℤ))
  /-- The lines with their rounded amounts. -/
  lines : List (Line × List (Option ℤ))
  checks : List FsCheck

section Face

variable (ctx : EngineCtx) (coll : Collation) (schedulesOn : Bool) (plugs : Entries Id Id)
  (body : List FsNode) (opt : FaceOptions)

def faceRoots : List ENode :=
  buildRoots ctx coll opt schedulesOn (claims ctx opt.scope body).nodeAccounts body

def faceCtx : FaceCtx :=
  let index := indexOf (faceRoots ctx coll schedulesOn body opt)
  { style := ctx.style, bal := opt.bal, index
    settled := fun c => settleColumn ctx plugs opt (contributions index) c index }

/-- The node of a role: the last one, if there were several. -/
def FaceCtx.byRole (f : FaceCtx) (r : FsNodeRole) : Option ENode :=
  ((f.index.map Prod.snd).filter fun e => e.node.role = some r).getLast?

def buildFace (stmtId : Id) : FaceResult :=
  let roots := faceRoots ctx coll schedulesOn body opt
  let f := faceCtx ctx coll schedulesOn plugs body opt
  { rows := f.rowsOf roots
    schedules := (ENode.allNodes roots).filterMap fun e => e.schedule.map f.scheduleRows
    roleRounded := fun r => (f.byRole r).map f.nodeAmounts
    roleExact := fun r => (f.byRole r).map fun e => f.perColumn (f.exactOf e)
    lines := (f.index.map Prod.snd).flatMap fun e => e.lines.map fun l => (l, f.lineAmounts l)
    checks := opt.bal.zipIdx.flatMap fun (m, c) => if m.isNone then [] else
      (f.settled c).unplaced.map fun u =>
        { code := .roundingUnplaced, statementId := stmtId, nodeId := some u.1, amount := some u.2 } }

end Face

end MyBooks
