import MyBooks.Books
import MyBooks.Entries
import MyBooks.FsPeriods
import Mathlib.Algebra.BigOperators.Group.List.Basic

/-!
# The context of the financial statements

The trial balance's workpapers in, closed balance sheets and income of a range out. Amounts are
counted in ten-thousandths. A workpaper's map drops the accounts at zero (`toMap`), a closed balance
sheet adds the year's income to the retained earnings account (`bsClosed`), and the income of a range
is composed of fiscal-year-to-date workpapers (`compose`).
-/

namespace MyBooks

section Util

def toUnits (x : Dec) : ℤ := ⌊x * 10000 + 1 / 2⌋

/-- The size of a presented unit: whole dollars, or cents. -/
def presUnit (wholeDollars : Bool) : ℤ := if wholeDollars then 10000 else 100

/-- To a multiple of `unit`, half away from zero. -/
def roundTo (v unit : ℤ) : ℤ :=
  let q : ℚ := |v| / unit
  let r := ⌊q + 1 / 2 + 1 / 10 ^ 9⌋ * unit
  if v < 0 then -r else r

@[simp] theorem roundTo_zero (unit : ℤ) : roundTo 0 unit = 0 := by
  simp [roundTo, Int.floor_eq_iff]
  norm_num

def isBsType (t : AccountType) : Bool := t = .asset ∨ t = .liability ∨ t = .equity

def isCreditNatural (t : AccountType) : Bool :=
  t = .liability ∨ t = .equity ∨ t = .revenue ∨ t = .otherRevenue

end Util

inductive FsCashFlowClass where
  | cash | operating | noncashAdjustment | investing | financing | excluded
  deriving DecidableEq, Repr

inductive FsEntityKind where
  | corporation | partnership | llc | soleProp
  deriving DecidableEq, Repr

inductive FsEquityRole where
  | retained | distributions | contributions | other
  deriving DecidableEq, Repr

structure FsSourceAccount where
  id : Id
  number : Option String
  name : String
  accountType : AccountType
  detailType : Option String
  systemTag : Option String
  deriving DecidableEq, Repr

/-- A workpaper: signed balances, debits positive. Balance sheet accounts are cumulative, the others
fiscal-year-to-date. -/
structure FsSourcePeriod where
  balances : Entries Id Dec
  taxBalances : Option (Entries Id Dec) := none
  hasData : Bool := true
  deriving DecidableEq, Repr

structure FsSourceGrouping where
  id : Id
  code : Option String
  name : String
  accountIds : List Id
  deriving DecidableEq, Repr

structure CashFlowOverride where
  accountId : Option Id
  groupingId : Option Id
  classification : FsCashFlowClass
  deriving DecidableEq, Repr

structure FsSourceData where
  entityKind : FsEntityKind
  accounts : List FsSourceAccount
  groupings : List FsSourceGrouping
  fyStartMonth : ℤ
  workpapers : Entries ℤ FsSourcePeriod
  tagged : Option (Entries ℤ FsSourcePeriod) := none
  /-- The account that the year's income is closed into. -/
  reAccountId : Id
  equityRoles : Entries Id FsEquityRole
  cashFlowOverrides : List CashFlowOverride
  deriving DecidableEq, Repr

/-- What the style says of numbers. -/
structure FsNumberStyle where
  wholeDollars : Bool
  hideZeroLines : Bool
  deriving DecidableEq, Repr

inductive FsCheckCode where
  | cfUnreconciled | roundingUnplaced | equityRounding | equityNotTied
  deriving DecidableEq, Repr

structure FsCheck where
  code : FsCheckCode
  statementId : Id
  nodeId : Option Id := none
  amount : Option ℤ := none
  accountIds : List Id := []
  deriving DecidableEq, Repr

section Defaults

/-- Only ASCII letters, and the Kelvin sign, have an ASCII letter as their lower case. -/
def toLowerCase (s : String) : List Char :=
  s.toList.map fun c => if c.toNat = 0x212A then 'k' else c.toLower

def hasWord (words : List String) (s : List Char) : Bool :=
  s.tails.any fun t => words.any fun w => w.toList.isPrefixOf t

/-- What may follow `accum` up to the next word: `[a-z_ .]*(deprec|amort)`. -/
def deprecFollows : List Char → Bool
  | [] => false
  | c :: cs =>
    (["deprec", "amort"].any fun w => w.toList.isPrefixOf (c :: cs)) ||
      ((('a' ≤ c && c ≤ 'z') || c = '_' || c = ' ' || c = '.') && deprecFollows cs)

def fsIsAccumulatedDepreciation (name : String) (detailType : Option String) : Bool :=
  let s := toLowerCase (name ++ " " ++ detailType.getD "")
  (s.tails.any fun t => "accum".toList.isPrefixOf t && deprecFollows (t.drop 5)) ||
    hasWord ["accumulated_depreciation", "accumulated_amortization"] s

def fsDefaultCfClassByCode : List (String × FsCashFlowClass) :=
  [("A", .cash), ("B", .operating), ("C", .operating), ("D", .investing), ("E", .operating),
    ("F", .operating), ("G", .operating), ("H", .financing), ("I", .operating), ("J", .financing)]

def fsDefaultCashFlowClass (account : FsSourceAccount) (leadsheetCode : Option String) :
    FsCashFlowClass :=
  if account.accountType = .asset ∧
      fsIsAccumulatedDepreciation account.name account.detailType then .noncashAdjustment
  else
    match leadsheetCode.bind fun c => Entries.get? fsDefaultCfClassByCode c with
    | some cls => cls
    | none =>
      let d := toLowerCase (account.detailType.getD "")
      match account.accountType with
      | .asset =>
        if hasWord ["cash", "bank"] d then .cash
        else if hasWord ["fixed", "property", "equipment", "vehicle", "building", "land",
          "furniture", "machinery"] d then .investing
        else .operating
      | .liability =>
        if hasWord ["loan", "note", "mortgage", "line_of_credit", "long_term"] d then .financing
        else .operating
      | .equity => .financing
      | _ => .excluded

end Defaults

abbrev Balances := Entries Id ℤ

/-- A workpaper's column as a map, without the accounts at zero. -/
def toMap (p : Option FsSourcePeriod) (tax : Bool) : Option Balances :=
  p.bind fun p =>
    if p.hasData then
      some (((if tax then p.taxBalances else none).getD p.balances).filterMap fun (k, v) =>
        if toUnits v ≠ 0 then some (k, toUnits v) else none)
    else none

/-- The retained earnings account goes with the leadsheet that has most equity accounts, the first
of several, or else with the one coded J. -/
def foldPlaced (accounts : Entries Id FsSourceAccount) (groupings : List FsSourceGrouping)
    (reAccountId : Id) : List FsSourceGrouping :=
  if groupings.any fun g => reAccountId ∈ g.accountIds then groupings
  else
    let equityIn (g : FsSourceGrouping) : ℕ :=
      g.accountIds.countP fun id => (accounts.get? id).map (·.accountType) = some .equity
    let best := groupings.zipIdx.foldl (fun (best : Option (ℕ × ℕ)) (g, i) =>
      if (best.elim 0 Prod.snd) < equityIn g then some (i, equityIn g) else best) none
    match (best.map Prod.fst) <|> groupings.findIdx? fun g => g.code = some "J" with
    | some i => groupings.modify i fun g => { g with accountIds := g.accountIds ++ [reAccountId] }
    | none => groupings

structure EngineCtx where
  settings : FsReportSettings
  style : FsNumberStyle
  source : FsSourceData
  plan : FsPlan
  accounts : Entries Id FsSourceAccount
  groupings : List FsSourceGrouping

def buildContext (settings : FsReportSettings) (style : FsNumberStyle) (source : FsSourceData) :
    EngineCtx :=
  let accounts : Entries Id FsSourceAccount :=
    source.accounts.foldl (fun m a => m.set a.id a) []
  { settings, style, source
    plan := fsPlanColumns settings source.fyStartMonth
    groupings := foldPlaced accounts source.groupings source.reAccountId
    accounts :=
      if (accounts.get? source.reAccountId).isSome then accounts
      else accounts.set source.reAccountId
        { id := source.reAccountId, number := none, name := "Retained earnings"
          accountType := .equity, detailType := some "retained_earnings"
          systemTag := some "retained_earnings" } }

/-- Which column of the workpaper a balance sheet reads: an opening one is always the book's. -/
inductive CloseRole where
  | close | opening
  deriving DecidableEq, Repr

namespace EngineCtx

variable (ctx : EngineCtx)

def unit : ℤ := presUnit ctx.style.wholeDollars

def tax : Bool := ctx.settings.framework = .tax

def typeOf (id : Id) : Option AccountType := (ctx.accounts.get? id).map (·.accountType)

def isBsAcct (id : Id) : Bool := isBsType ((ctx.typeOf id).getD .expense)

def groupingOfAccount (id : Id) : Option FsSourceGrouping :=
  ctx.groupings.reverse.find? fun g => id ∈ g.accountIds

def groupingById (id : Id) : Option FsSourceGrouping :=
  ctx.groupings.reverse.find? fun g => g.id = id

def groupingByCode (code : String) : Option FsSourceGrouping :=
  ctx.groupings.find? fun g => g.code = some code

def raw (date : ℤ) (useTax : Bool) : Option Balances :=
  toMap (ctx.source.workpapers.get? date) useTax

/-- The balance sheet accounts of a workpaper. -/
def bsPart (src : Balances) : Balances :=
  src.foldl (fun out e => if ctx.isBsAcct e.1 then out.add e.1 e.2 else out) []

/-- The income of a workpaper, expenses positive. -/
def plTotal (src : Balances) : ℤ :=
  src.foldl (fun pl e => if ctx.isBsAcct e.1 then pl else pl + e.2) 0

/-- The balance sheet at a date, with the year's income closed into retained earnings. -/
def bsClosed (date : ℤ) (role : CloseRole := .close) : Option Balances :=
  (ctx.raw date (ctx.tax ∧ role = .close)).map fun src =>
    if ctx.plTotal src ≠ 0 then (ctx.bsPart src).add ctx.source.reAccountId (ctx.plTotal src)
    else ctx.bsPart src

/-- A range's income and expenses, composed of those of the year to date. -/
def compose (start stop : ℤ) (workpapers : Entries ℤ FsSourcePeriod) : Option Balances :=
  let parts := (fsRangeComposition start stop ctx.source.fyStartMonth).filterMap fun c =>
    (toMap (workpapers.get? c.date) ctx.tax).map fun m => (c.sign, m)
  if parts = [] then none
  else some (parts.foldl (fun out part => part.2.foldl (fun out e =>
    if ctx.isBsAcct e.1 then out else out.add e.1 (part.1 * e.2)) out) [])

def plActivity (r : FsPlanRange) : Option Balances :=
  ctx.compose r.start r.stop (ctx.source.tagged.getD ctx.source.workpapers)

def plActivityUntagged (r : FsPlanRange) : Option Balances :=
  ctx.compose r.start r.stop ctx.source.workpapers

/-- The override of the account, else of its leadsheet, else the default. -/
def cfClass (accountId : Id) : FsCashFlowClass :=
  let overrides := ctx.source.cashFlowOverrides.reverse
  let ofAccount := (overrides.find? fun o => o.accountId = some accountId).map (·.classification)
  let g := ctx.groupingOfAccount accountId
  let ofGrouping := g.bind fun g => (overrides.find? fun o =>
    o.accountId = none ∧ o.groupingId = some g.id).map (·.classification)
  match ofAccount <|> ofGrouping with
  | some cls => cls
  | none =>
    match ctx.accounts.get? accountId with
    | none => .excluded
    | some a =>
      if accountId = ctx.source.reAccountId then .financing
      else fsDefaultCashFlowClass a (g.bind (·.code))

end EngineCtx

end MyBooks
