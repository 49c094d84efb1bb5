import MyBooks.Calendar
import Mathlib.Data.List.Sort

/-!
# Reporting periods of the financial statements

Dates are day numbers. `fsPlanColumns` plans the ranges and dates that the columns of each statement
show, and `fsRangeComposition` gives the workpaper dates whose fiscal-year-to-date figures make up a
range. The plan's labels are left out.
-/

namespace MyBooks

/-- The day of a date: `civil` the other way. -/
def fmt (y m d : ℤ) : ℤ :=
  yearStart (if m < 3 then y - 1 else y) + (153 * (if m < 3 then m + 9 else m - 3) + 2) / 5 + d
    - 719469

def lastDay (y m : ℤ) : ℤ :=
  (civil ((if m = 12 then fmt (y + 1) 1 1 else fmt y (m + 1) 1) - 1)).d

def fsAddDays (iso days : ℤ) : ℤ := iso + days

/-- First day of the month `months` after that of `iso`. -/
def monthStart (iso : ℤ) (months : ℤ := 0) : ℤ :=
  let t := (civil iso).y * 12 + ((civil iso).m - 1) + months
  fmt (t / 12) (t % 12 + 1) 1

def monthEnd (iso : ℤ) : ℤ := fmt (civil iso).y (civil iso).m (lastDay (civil iso).y (civil iso).m)

/-- The calendar day some years on. Month-ends stay month-ends. -/
def fsShiftYears (iso years : ℤ) : ℤ :=
  let p := civil iso
  let ny := p.y + years
  fmt ny p.m (if p.d = lastDay p.y p.m then lastDay ny p.m else min p.d (lastDay ny p.m))

def fsFiscalYearStart (iso fyStartMonth : ℤ) : ℤ :=
  let p := civil iso
  fmt (if p.m < fyStartMonth then p.y - 1 else p.y) fyStartMonth 1

def fsFiscalYearEnd (iso fyStartMonth : ℤ) : ℤ :=
  fsAddDays (fsShiftYears (fsFiscalYearStart iso fyStartMonth) 1) (-1)

example : fmt 2026 4 15 = 20558 ∧ fsShiftYears (fmt 2024 2 29) 1 = fmt 2025 2 28 ∧
    fsFiscalYearEnd (fmt 2026 4 15) 7 = fmt 2026 6 30 := by decide

inductive FsPeriodType where
  | annual | quarter | month | ytd | custom
  deriving DecidableEq, Repr

inductive FsColumnMode where
  | single | cyPy | periodYtd | periodYtdPy | sideBySide | monthYtd
  deriving DecidableEq, Repr

inductive FsFramework where
  | gaap | cash | tax
  deriving DecidableEq, Repr

structure FsPeriod where
  type : FsPeriodType
  start : ℤ
  deriving DecidableEq, Repr

structure FsColumnsConfig where
  mode : FsColumnMode
  /-- `sideBy` is a quarter, else a month. -/
  byQuarter : Bool
  /-- `bsCompare` is the same date a year earlier, else the prior fiscal year-end. -/
  sameDate : Bool
  /-- `ytdOrder` is by year, else by measure. -/
  byYear : Bool
  deriving DecidableEq, Repr

structure FsReportSettings where
  periodEnd : ℤ
  period : Option FsPeriod
  framework : FsFramework
  columns : FsColumnsConfig
  tagId : Option String
  deriving DecidableEq, Repr

/-- Settings from before reporting periods are fiscal-year-to-date, and the old name of
`periodYtd` means a month. -/
def normalizeFsSettings (s : FsReportSettings) (fyStartMonth : ℤ) : FsPeriod × FsColumnMode :=
  let monthly : Option FsPeriod :=
    if s.columns.mode = .monthYtd then some ⟨.month, monthStart s.periodEnd⟩ else none
  let yearly : FsPeriod :=
    ⟨if s.periodEnd = fsFiscalYearEnd s.periodEnd fyStartMonth then .annual else .ytd,
      fsFiscalYearStart s.periodEnd fyStartMonth⟩
  (((s.period <|> monthly).getD yearly),
    if s.columns.mode = .monthYtd then .periodYtd else s.columns.mode)

/-- A workpaper date, and whether its figures count for or against. -/
structure FsComposed where
  date : ℤ
  sign : ℤ
  deriving DecidableEq, Repr

/-- The loop of `fsRangeComposition` from day `a` on, in so many rounds at most. -/
def composeFrom (stop fyStartMonth : ℤ) : ℕ → ℤ → List FsComposed
  | 0, _ => []
  | n + 1, a =>
    if a ≤ stop then
      let fyS := fsFiscalYearStart a fyStartMonth
      let fyE := fsFiscalYearEnd a fyStartMonth
      let b := if stop < fyE then stop else fyE
      ⟨b, 1⟩ :: (if a ≠ fyS then [⟨fsAddDays a (-1), -1⟩] else []) ++
        composeFrom stop fyStartMonth n (fsAddDays b 1)
    else []

/-- For each fiscal year the range touches, the year to date at its end less that before its
start. -/
def fsRangeComposition (start stop fyStartMonth : ℤ) : List FsComposed :=
  composeFrom stop fyStartMonth 100 start

structure FsPlanRange where
  key : String
  start : ℤ
  stop : ℤ
  deriving DecidableEq, Repr

structure FsPlanPoint where
  key : String
  date : ℤ
  deriving DecidableEq, Repr

structure FsPlan where
  isRanges : List FsPlanRange
  bsPoints : List FsPlanPoint
  cfRanges : List FsPlanRange
  equityBlocks : List FsPlanRange
  deriving DecidableEq, Repr

/-- `rangeId`: the range without its key. -/
def rangeId (r : FsPlanRange) : ℤ × ℤ := (r.start, r.stop)

/-- The slices of the side-by-side columns, from the month starting at `cursor`. -/
def slicesFrom (period : FsPlanRange) (step : ℤ) : ℕ → ℤ → List FsPlanRange
  | 0, _ => []
  | n + 1, cursor =>
    if cursor ≤ period.stop then
      let sliceEnd := monthEnd (monthStart cursor (step - 1))
      ⟨s!"S{24 - n}", if cursor < period.start then period.start else cursor,
        if sliceEnd > period.stop then period.stop else sliceEnd⟩ ::
        slicesFrom period step n (monthStart cursor step)
    else []

/-- Ranges listed once each, the first of those that are the same. -/
def dedupeRanges : List FsPlanRange → List FsPlanRange :=
  List.foldl (fun seen r => if rangeId r ∈ seen.map rangeId then seen else seen ++ [r]) []

/-- By end, then by start. -/
def chronological (a b : FsPlanRange) : Prop :=
  if a.stop = b.stop then a.start ≤ b.start else a.stop ≤ b.stop

instance (a b : FsPlanRange) : Decidable (chronological a b) :=
  inferInstanceAs (Decidable (ite _ _ _))

def fsPlanColumns (settings : FsReportSettings) (fyStartMonth : ℤ) : FsPlan :=
  let (per, mode) := normalizeFsSettings settings fyStartMonth
  let p : FsPlanRange := ⟨"P", per.start, settings.periodEnd⟩
  let py (r : FsPlanRange) (key : String) : FsPlanRange :=
    ⟨key, fsShiftYears r.start (-1), fsShiftYears r.stop (-1)⟩
  let ytd : FsPlanRange := ⟨"YTD", fsFiscalYearStart p.stop fyStartMonth, p.stop⟩
  let (isRanges, cfRanges) : List FsPlanRange × List FsPlanRange :=
    match mode with
    | .cyPy => ([p, py p "P_py"], [p, py p "P_py"])
    | .periodYtd | .monthYtd =>
      let ranges := if p.start = ytd.start then [p] else [p, ytd]
      (ranges, ranges)
    | .periodYtdPy =>
      let ranges :=
        if p.start ≠ ytd.start then
          if settings.columns.byYear then [p, ytd, py p "P_py", py ytd "YTD_py"]
          else [p, py p "P_py", ytd, py ytd "YTD_py"]
        else [p, py p "P_py"]
      (ranges, ranges)
    | .sideBySide =>
      let step := if settings.columns.byQuarter then 3 else 1
      (slicesFrom p step 24 (monthStart p.start) ++ [p], [p])
    | .single => ([p], [p])
  let cmpDate :=
    if settings.columns.sameDate then fsShiftYears p.stop (-1)
    else fsAddDays (fsFiscalYearStart p.stop fyStartMonth) (-1)
  { isRanges, cfRanges
    bsPoints :=
      if mode = .cyPy ∨ mode = .periodYtdPy then [⟨"end", p.stop⟩, ⟨"cmp", cmpDate⟩]
      else [⟨"end", p.stop⟩]
    equityBlocks := (dedupeRanges cfRanges).insertionSort chronological }

end MyBooks
