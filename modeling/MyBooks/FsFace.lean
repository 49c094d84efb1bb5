import MyBooks.FsSource
import Mathlib.Algebra.Ring.Int.Units

/-!
# The face of a balance sheet or an income statement

The layout's nodes claim accounts, and each leaf becomes lines. A node's value is the sum of the lines
that contribute to it, each with a net sign (`contrib`): a section adds its children, a total its
terms. Lines are rounded one by one, and then every anchor's value is made the rounded exact value by
a plug on one of its lines (`settleAnchor`). Captions and styles are left out. The cache of
contributions is left out of `contrib`, as only a total that refers back to itself can tell; the
anchors are settled with whatever contributions the nodes have (`Contributions`).
-/

namespace MyBooks

inductive FsPolarity where
  | debit | credit
  deriving DecidableEq, Repr

inductive FsNodeRole where
  | totalAssets | totalLiabilitiesEquity | netIncome
  deriving DecidableEq, Repr

inductive FsLeadsheetDisplay where
  | singleLine | detail | summaryWithSchedule
  deriving DecidableEq, Repr

structure FsAccountRef where
  accountId : Option Id
  systemTag : Option String
  deriving DecidableEq, Repr

structure FsSectionAttrs where
  caption : String := ""
  showHeading : Bool := true
  polarity : Option FsPolarity := none
  showTotal : Bool := true
  role : Option FsNodeRole := none
  anchor : Bool := false
  hideWhenZero : Option Bool := none
  deriving DecidableEq, Repr

structure FsLeadsheetAttrs where
  groupingId : Option Id := none
  leadsheetCode : Option String := none
  caption : String := ""
  display : FsLeadsheetDisplay := .singleLine
  polarity : Option FsPolarity := none
  /-- By default a detail leadsheet has a heading and a total at the top level only. -/
  showHeading : Option Bool := none
  showTotal : Option Bool := none
  scheduleLines : List (List FsAccountRef) := []
  anchor : Bool := false
  hideWhenZero : Option Bool := none
  deriving DecidableEq, Repr

structure FsAccountAttrs where
  refs : List FsAccountRef
  polarity : Option FsPolarity := none
  hideWhenZero : Option Bool := none
  deriving DecidableEq, Repr

structure FsTerm where
  nodeId : Id
  sign : ℤˣ
  deriving DecidableEq

structure FsTotalAttrs where
  terms : List FsTerm
  role : Option FsNodeRole := none
  anchor : Bool := false
  hideWhenZero : Option Bool := none
  deriving DecidableEq

/-- A node of the layout. The validation of layouts gives each node of a statement its own id. -/
inductive FsNode where
  | sectionNode (id : Id) (attrs : FsSectionAttrs) (children : List FsNode)
  | leadsheetNode (id : Id) (attrs : FsLeadsheetAttrs)
  | accountNode (id : Id) (attrs : FsAccountAttrs)
  | totalNode (id : Id) (attrs : FsTotalAttrs)
  | textNode (id : Id)
  | blankNode (id : Id)
  | pageBreakNode (id : Id)

namespace FsNode

def id : FsNode → Id
  | sectionNode i _ _ | leadsheetNode i _ | accountNode i _ | totalNode i _
  | textNode i | blankNode i | pageBreakNode i => i

/-- What a section does not add up: totals, texts, blanks and page breaks. -/
def skipped : FsNode → Bool
  | sectionNode .. | leadsheetNode .. | accountNode .. => false
  | totalNode .. | textNode _ | blankNode _ | pageBreakNode _ => true

def role : FsNode → Option FsNodeRole
  | sectionNode _ a _ => a.role
  | totalNode _ a => a.role
  | _ => none

/-- Whether the node's value is anchored. -/
def anchored : FsNode → Bool
  | sectionNode _ a _ => a.role.isSome || a.anchor
  | totalNode _ a => a.role.isSome || a.anchor
  | leadsheetNode _ a => a.anchor
  | _ => false

mutual

/-- The node and those under it, depth first. -/
def nodes : FsNode → List FsNode
  | sectionNode i a children => sectionNode i a children :: allNodes children
  | n => [n]

def allNodes : List FsNode → List FsNode
  | [] => []
  | n :: ns => n.nodes ++ allNodes ns

end

end FsNode

/-- How strings are compared: `localeCompare`, and it with the numeric option. -/
structure Collation where
  plain : String → String → Ordering
  numeric : String → String → Ordering

def compareAccountNumbers (coll : Collation) (a b : FsSourceAccount) : Ordering :=
  let an := a.number.getD ""
  let bn := b.number.getD ""
  if an ≠ "" ∧ bn ≠ "" ∧ an ≠ bn then coll.numeric an bn
  else if an ≠ "" ∧ bn = "" then .lt
  else if an = "" ∧ bn ≠ "" then .gt
  else coll.plain a.name b.name

inductive FsScope where
  | bs | pl
  deriving DecidableEq, Repr

structure FaceOptions where
  scope : FsScope
  /-- The balances of each amount column. A column that is not available has none. -/
  bal : List (Option Balances)
  /-- Net income as the equity roll-forward needs it, by column. -/
  netIncomeTargets : List (Option ℤ) := []

/-- A leaf's line: the `pos`th of its node. -/
structure Line where
  nodeId : Id
  pos : ℕ
  accounts : List Id
  pol : FsPolarity
  exact : List (Option ℤ)
  /-- The exact amounts rounded, before any plug. -/
  rounded : List (Option ℤ)
  /-- A line whose schedule has settled its amount. -/
  fixed : Bool := false
  deriving DecidableEq, Repr

/-- An amount of a column, zero where there is none. -/
def cellAt (xs : List (Option ℤ)) (c : ℕ) : ℤ := ((xs[c]?).bind fun x => x).getD 0

/-- A schedule's line: its amounts as settled, and whether a plug is on it. -/
structure ScheduleLine where
  line : Line
  rounded : List (Option ℤ)
  plugged : Bool
  deriving DecidableEq, Repr

structure ScheduleBuild where
  lines : List ScheduleLine
  totalRounded : List (Option ℤ)
  deriving DecidableEq, Repr

inductive ENode where
  | mk (node : FsNode) (top : Bool) (pol : FsPolarity) (lines : List Line)
    (schedule : Option ScheduleBuild) (children : List ENode)

namespace ENode

def node : ENode → FsNode
  | mk n _ _ _ _ _ => n

def id (e : ENode) : Id := e.node.id

def top : ENode → Bool
  | mk _ t _ _ _ _ => t

def pol : ENode → FsPolarity
  | mk _ _ p _ _ _ => p

def lines : ENode → List Line
  | mk _ _ _ ls _ _ => ls

def schedule : ENode → Option ScheduleBuild
  | mk _ _ _ _ s _ => s

def children : ENode → List ENode
  | mk _ _ _ _ _ cs => cs

mutual

def nodes : ENode → List ENode
  | mk n t p ls s cs => mk n t p ls s cs :: allNodes cs

def allNodes : List ENode → List ENode
  | [] => []
  | e :: es => e.nodes ++ allNodes es

end

end ENode

section Claims

variable (ctx : EngineCtx) (scope : FsScope)

def inScope (id : Id) : Bool :=
  match ctx.typeOf id with
  | none => false
  | some t => if scope = .bs then isBsType t else !isBsType t

def resolveRefs (refs : List FsAccountRef) : List Id :=
  (refs.flatMap fun r =>
    match r.accountId.filter fun a => (ctx.accounts.get? a).isSome with
    | some a => [a]
    | none => r.systemTag.elim [] fun tag =>
        (ctx.accounts.filter fun a => a.2.systemTag = some tag).map (·.2.id)).filter
    (inScope ctx scope)

/-- What the nodes have claimed so far: the accounts taken, and each node's. -/
structure Claims where
  claimedBy : List Id := []
  nodeAccounts : Entries Id (List Id) := []

/-- The node takes those of the accounts that are in scope and not taken. -/
def Claims.take (s : Claims) (nodeId : Id) (ids : List Id) : Claims :=
  let (claimed, mine) := ids.foldl (fun (s : List Id × List Id) id =>
    if inScope ctx scope id ∧ id ∉ s.1 then (s.1 ++ [id], s.2 ++ [id]) else s) (s.claimedBy, [])
  ⟨claimed, s.nodeAccounts.set nodeId mine⟩

def groupingFor (a : FsLeadsheetAttrs) : Option FsSourceGrouping :=
  (a.groupingId.bind ctx.groupingById) <|> (a.leadsheetCode.bind ctx.groupingByCode)

/-- Accounts on lines of their own first, then the leadsheets. -/
def claims (body : List FsNode) : Claims :=
  let nodes := FsNode.allNodes body
  let s := nodes.foldl (fun (s : Claims) n => match n with
    | .accountNode i a => s.take ctx scope i (resolveRefs ctx scope a.refs)
    | _ => s) {}
  nodes.foldl (fun (s : Claims) n => match n with
    | .leadsheetNode i a => s.take ctx scope i ((groupingFor ctx a).elim [] (·.accountIds))
    | _ => s) s

end Claims

section Build

variable (ctx : EngineCtx) (coll : Collation) (opt : FaceOptions) (schedulesOn : Bool)
  (nodeAccounts : Entries Id (List Id))

def naturalPol (ids : List Id) : FsPolarity :=
  let credit := ids.countP fun id => isCreditNatural ((ctx.typeOf id).getD .expense)
  if ids.length - credit < credit then .credit else .debit

mutual

def subtreeAccounts : FsNode → List Id
  | .sectionNode _ _ children => accountsUnder children
  | n => (nodeAccounts.get? n.id).getD []

def accountsUnder : List FsNode → List Id
  | [] => []
  | n :: ns => subtreeAccounts n ++ accountsUnder ns

end

def makeLine (nodeId : Id) (pos : ℕ) (accounts : List Id) (pol : FsPolarity) : Line :=
  let exact := opt.bal.map fun m => m.map fun m =>
    let s := (accounts.map fun id => (m.get? id).getD 0).sum
    if pol = .credit then -s else s
  { nodeId, pos, accounts, pol, exact
    rounded := exact.map fun v => v.map fun v => roundTo v ctx.unit }

/-- The accounts of a schedule's lines: as the layout puts them together, then the others one by one
in the order of the chart. -/
def scheduleAccounts (a : FsLeadsheetAttrs) (accounts : List Id) : List (List Id) :=
  let (remaining, lines) := a.scheduleLines.foldl
    (fun (s : List Id × List (List Id)) refs =>
      let ids := (resolveRefs ctx opt.scope refs).filter (· ∈ s.1)
      if ids = [] then s else (s.1.filter (· ∉ ids), s.2 ++ [ids])) (accounts.eraseDups, [])
  let rest := (remaining.filterMap ctx.accounts.get?).insertionSort fun a b =>
    compareAccountNumbers coll a b ≠ .gt
  lines ++ rest.map fun a => [a.id]

def scheduleLinesFor (nodeId : Id) (a : FsLeadsheetAttrs) (accounts : List Id)
    (pol : FsPolarity) : List Line :=
  (scheduleAccounts ctx coll opt a accounts).zipIdx.map fun (ids, i) =>
    makeLine ctx opt nodeId i ids pol

/-- The place of the largest amount, the first of several. -/
def largestAt (xs : List ℤ) : Option ℕ :=
  ((xs.zipIdx.insertionSort fun a b => |b.1| ≤ |a.1|).head?).map Prod.snd

/-- A schedule's plug in a column: where, and how much. -/
def schedulePlug (lines : List Line) (c : ℕ) : Option (ℕ × ℤ) :=
  let exact := (lines.map fun l => cellAt l.exact c).sum
  let diff := roundTo exact ctx.unit - (lines.map fun l => cellAt l.rounded c).sum
  if diff = 0 then none
  else (largestAt (lines.map fun l => cellAt l.exact c)).map fun i => (i, diff)

/-- A schedule's total is anchored to its rounded exact amount. -/
def settleSchedule (lines : List Line) : ScheduleBuild where
  lines := lines.zipIdx.map fun (l, i) =>
    { line := l
      rounded := l.rounded.zipIdx.map fun (v, c) => v.map fun v =>
        v + ((schedulePlug ctx lines c).elim 0 fun p => if p.1 = i then p.2 else 0)
      plugged := (List.range opt.bal.length).any fun c => (opt.bal[c]?.bind fun m => m).isSome &&
        (schedulePlug ctx lines c).any fun p => p.1 = i }
  totalRounded := opt.bal.zipIdx.map fun (m, c) => m.map fun _ =>
    roundTo ((lines.map fun l => cellAt l.exact c).sum) ctx.unit

def leadsheetLines (i : Id) (a : FsLeadsheetAttrs) (pol : FsPolarity) :
    List Line × Option ScheduleBuild :=
  let ids := (nodeAccounts.get? i).getD []
  let face := makeLine ctx opt i 0 ids pol
  match a.display with
  | .detail => (scheduleLinesFor ctx coll opt i a ids pol, none)
  | .summaryWithSchedule =>
    if schedulesOn then
      let lines := scheduleLinesFor ctx coll opt i a ids pol
      let sb := settleSchedule ctx opt lines
      ([{ face with
          fixed := true, rounded := sb.totalRounded
          exact := opt.bal.zipIdx.map fun (m, c) => m.map fun _ =>
            (lines.map fun l => cellAt l.exact c).sum }], some sb)
    else ([face], none)
  | .singleLine => ([face], none)

mutual

def build : FsNode → Bool → Option FsPolarity → ENode
  | .sectionNode i a children, top, parent =>
    let pol := a.polarity.getD
      (parent.getD (naturalPol ctx (accountsUnder nodeAccounts children)))
    .mk (.sectionNode i a children) top pol [] none (buildAll children pol)
  | .leadsheetNode i a, top, parent =>
    let pol := a.polarity.getD
      (parent.getD (naturalPol ctx ((nodeAccounts.get? i).getD [])))
    let ls := leadsheetLines ctx coll opt schedulesOn nodeAccounts i a pol
    .mk (.leadsheetNode i a) top pol ls.1 ls.2 []
  | .accountNode i a, top, parent =>
    let ids := (nodeAccounts.get? i).getD []
    let pol := a.polarity.getD (parent.getD (naturalPol ctx ids))
    .mk (.accountNode i a) top pol [makeLine ctx opt i 0 ids pol] none []
  | n, top, parent => .mk n top (parent.getD (naturalPol ctx [])) [] none []

def buildAll : List FsNode → FsPolarity → List ENode
  | [], _ => []
  | n :: ns, pol => build n false (some pol) :: buildAll ns pol

end

def buildRoots (body : List FsNode) : List ENode :=
  body.map fun n => build ctx coll opt schedulesOn nodeAccounts n true none

end Build

abbrev Index := Entries Id ENode

def indexOf (roots : List ENode) : Index :=
  (ENode.allNodes roots).foldl (fun m e => m.set e.id e) []

section Contributions

variable (index : Index)

def addAll (out m : Entries Line ℤ) (f : ℤ) : Entries Line ℤ :=
  m.foldl (fun out e => out.add e.1 (e.2 * f)) out

/-- Each line's net sign in a node's value. A node that is being visited contributes nothing. -/
def contribIn : ℕ → List Id → ENode → Entries Line ℤ
  | 0, _, _ => []
  | fuel + 1, visiting, e =>
    if e.id ∈ visiting then []
    else
      match e.node with
      | .sectionNode .. => e.children.foldl (fun out ch =>
          if ch.node.skipped then out
          else addAll out (contribIn fuel (e.id :: visiting) ch) (if ch.pol = e.pol then 1 else -1)) []
      | .leadsheetNode .. | .accountNode .. => e.lines.foldl (fun out l => out.set l 1) []
      | .totalNode _ a => a.terms.foldl (fun out t => match index.get? t.nodeId with
          | none => out
          | some target => addAll out (contribIn fuel (e.id :: visiting) target) t.sign) []
      | _ => []

/-- The nodes visited on the way to a node differ, so no more rounds than nodes are needed. -/
def contrib (e : ENode) : Entries Line ℤ := contribIn index (index.length + 1) [] e

end Contributions

/-- Each node's lines with their net signs, each line once. -/
structure Contributions where
  of : ENode → Entries Line ℤ
  nodup : ∀ e, (of e).keys.Nodup

section Contributions

variable {index : Index}

theorem nodup_keys_addAll {out : Entries Line ℤ} (h : out.keys.Nodup) (m : Entries Line ℤ) (f : ℤ) :
    (addAll out m f).keys.Nodup :=
  Entries.nodup_keys_foldl_update Prod.fst (fun e o => o.getD 0 + e.2 * f) m h

theorem nodup_keys_foldl {α : Type*} {f : Entries Line ℤ → α → Entries Line ℤ}
    (hf : ∀ out a, out.keys.Nodup → (f out a).keys.Nodup) : ∀ (as : List α) {out : Entries Line ℤ},
    out.keys.Nodup → (as.foldl f out).keys.Nodup
  | [], _, h => h
  | a :: as, _, h => nodup_keys_foldl hf as (hf _ a h)

theorem contribIn_nodup (fuel : ℕ) (visiting : List Id) (e : ENode) :
    (contribIn index fuel visiting e).keys.Nodup := by
  unfold contribIn
  split
  · exact List.nodup_nil
  · split_ifs
    · exact List.nodup_nil
    · split
      · refine nodup_keys_foldl (fun out ch h => ?_) _ List.nodup_nil
        split_ifs
        · exact h
        · exact nodup_keys_addAll h _ _
        · exact nodup_keys_addAll h _ _
      · exact nodup_keys_foldl (fun out l h => Entries.nodup_keys_set h) _ List.nodup_nil
      · exact nodup_keys_foldl (fun out l h => Entries.nodup_keys_set h) _ List.nodup_nil
      · refine nodup_keys_foldl (fun out t h => ?_) _ List.nodup_nil
        split
        · exact h
        · exact nodup_keys_addAll h _ _
      · exact List.nodup_nil

/-- The contributions where no total refers back to itself. -/
def contributions (index : Index) : Contributions := ⟨contrib index, contribIn_nodup _ _⟩

end Contributions

/-- A column being rounded: the plugs on the lines, the lines whose amounts are final, and the
differences that found no line. -/
structure ColumnRounding where
  plug : Line → ℤ := fun _ => 0
  locked : Line → Bool := fun _ => false
  unplaced : List (Id × ℤ) := []

/-- A rounded value in a column, from its lines. -/
def ColumnRounding.valueOf (s : ColumnRounding) (c : ℕ) (m : Entries Line ℤ) : ℤ :=
  m.weigh fun l => cellAt l.rounded c + s.plug l

section Anchors

variable (ctx : EngineCtx) (plugs : Entries Id Id) (opt : FaceOptions) (contribs : Contributions)
  (c : ℕ)

/-- An anchor is as close to its exact value as its rounding, unless a target is given. -/
def anchorTarget (a : ENode) : ℤ :=
  ((if a.node.role = some .netIncome then (opt.netIncomeTargets[c]?).bind fun t => t else none)).getD
    (roundTo ((contribs.of a).weigh fun l => cellAt l.exact c) ctx.unit)

/-- Of the lines that may take a plug, the largest: those the layout prefers for the anchor if there
are any, else those that are not cash, else any. -/
def plugLine (a : ENode) (locked : Line → Bool) : Option (Line × ℤ) :=
  let eligible := (contribs.of a).filter fun e => e.2 ≠ 0 ∧ !e.1.fixed ∧ !locked e.1
  let preferred := (plugs.get? a.id).elim [] fun p => eligible.filter fun e => e.1.nodeId = p
  let nonCash := eligible.filter fun e => !e.1.accounts.any fun id => ctx.cfClass id = .cash
  let pool := if preferred ≠ [] then preferred else if nonCash ≠ [] then nonCash else eligible
  (pool.insertionSort fun x y => |cellAt y.1.exact c| ≤ |cellAt x.1.exact c|).head?

/-- One anchor in one column. Columns do not see each other. -/
def settleAnchor (s : ColumnRounding) (a : ENode) : ColumnRounding :=
  let m := contribs.of a
  let diff := anchorTarget ctx opt contribs c a - s.valueOf c m
  let s :=
    if diff = 0 then s
    else
      match plugLine ctx plugs contribs c a s.locked with
      | some (line, sign) =>
        { s with plug := fun l => if l = line then s.plug l + diff * sign.sign else s.plug l }
      | none => { s with unplaced := s.unplaced ++ [(a.id, diff)] }
  { s with locked := fun l => s.locked l || decide (l ∈ m.keys) }

/-- The anchors, those with fewest lines first. -/
def anchors (index : Index) : List ENode :=
  ((index.map Prod.snd).filter fun e => e.node.anchored).insertionSort fun a b =>
    (contribs.of a).length ≤ (contribs.of b).length

def settleColumn (index : Index) : ColumnRounding :=
  (anchors contribs index).foldl (settleAnchor ctx plugs opt contribs c) {}

end Anchors

end MyBooks
