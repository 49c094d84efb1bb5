import MyBooks.FsSource
import MyBooks.Recurrence

/-!
# A range's activity from year-to-date figures

A month's first day is the least day of the month (`firstDay_le_iff`), so fiscal years and slices
are stretches between first days. Over the fiscal years that a range touches, the year to date at
the end of each less that before its start is the activity on the range (`rangeComposition_sum`),
and the slices of side-by-side columns follow each other over the period (`Covers`).
-/

namespace MyBooks

section FirstDay

/-- The first day of the month that is the `i`-th, counted as `monthIndex` counts them. -/
def firstDay (i : ℤ) : ℤ := fmt ((i - 1) / 12) ((i - 1) % 12 + 1) 1

theorem fmt_eq (y m d : ℤ) : fmt y m d = dayNumber y m d := by
  unfold fmt dayNumber
  simp only
  split_ifs <;> omega

theorem monthIndex_firstDay (i : ℤ) : monthIndex (firstDay i) = i := by
  have hmonths := daysInMonth_range ((i - 1) / 12) ((i - 1) % 12 + 1)
  rw [firstDay, fmt_eq, monthIndex_dayNumber (by omega) (by omega)]
  omega

theorem fmt_first {y m : ℤ} (hm : 1 ≤ m ∧ m ≤ 12) : fmt y m 1 = firstDay (12 * y + m) := by
  have hy : (12 * y + m - 1) / 12 = y := by omega
  have hm' : (12 * y + m - 1) % 12 + 1 = m := by omega
  rw [firstDay, hy, hm']

/-- The first day of a month is the least of it and of the months after it. -/
theorem firstDay_le_iff {i d : ℤ} : firstDay i ≤ d ↔ i ≤ monthIndex d := by
  constructor
  · intro h
    have := monthIndex_mono h
    rwa [monthIndex_firstDay] at this
  · intro h
    rcases h.eq_or_lt with rfl | hlt
    · obtain ⟨hm, hd⟩ := civil_range d
      have hday := dayNumber_civil d
      have hfirst : firstDay (monthIndex d) = dayNumber (civil d).y (civil d).m 1 := by
        rw [monthIndex_civil, ← fmt_first hm, fmt_eq]
      rw [hfirst]
      unfold dayNumber at hday ⊢
      simp only at hday ⊢
      omega
    · exact (lt_of_monthIndex (by rwa [monthIndex_firstDay])).le

theorem lt_firstDay_iff {i d : ℤ} : d < firstDay i ↔ monthIndex d < i := by
  rw [← not_le, firstDay_le_iff, not_le]

theorem monthStart_eq (iso months : ℤ) :
    monthStart iso months = firstDay (monthIndex iso + months) := by
  obtain ⟨hm, -⟩ := civil_range iso
  unfold monthStart firstDay
  simp only
  rw [monthIndex_civil]
  have hidx : 12 * (civil iso).y + (civil iso).m + months - 1 =
      (civil iso).y * 12 + ((civil iso).m - 1) + months := by ring
  rw [hidx]

theorem firstDay_lt_succ (i : ℤ) : firstDay i < firstDay (i + 1) := by
  rw [lt_firstDay_iff, monthIndex_firstDay]
  omega

/-- The last day of a month comes before the first of the next. -/
theorem fmt_lastDay {y m : ℤ} (hm : 1 ≤ m ∧ m ≤ 12) :
    fmt y m (lastDay y m) = firstDay (12 * y + m + 1) - 1 := by
  have hnext : (if m = 12 then fmt (y + 1) 1 1 else fmt y (m + 1) 1) =
      firstDay (12 * y + m + 1) := by
    split_ifs with h12
    · rw [fmt_first (by omega), h12]
      congr 1
      omega
    · rw [fmt_first (by omega), add_assoc]
  set last := firstDay (12 * y + m + 1) - 1
  have hindex : monthIndex last = 12 * y + m := by
    have hlt : monthIndex last < 12 * y + m + 1 := lt_firstDay_iff.mp (by omega)
    have hstep := firstDay_lt_succ (12 * y + m)
    have hge : 12 * y + m ≤ monthIndex last := firstDay_le_iff.mp (by omega)
    omega
  obtain ⟨hm', -⟩ := civil_range last
  rw [monthIndex_civil] at hindex
  have hy : (civil last).y = y := by omega
  have hmonth : (civil last).m = m := by omega
  unfold lastDay
  rw [hnext, fmt_eq]
  change dayNumber y m (civil last).d = last
  rw [← hy, ← hmonth, dayNumber_civil]

theorem monthEnd_eq (iso : ℤ) : monthEnd iso = firstDay (monthIndex iso + 1) - 1 := by
  rw [monthEnd, fmt_lastDay (civil_range iso).1, monthIndex_civil]

theorem one_lt_lastDay {y m : ℤ} (hm : 1 ≤ m ∧ m ≤ 12) : 1 < lastDay y m := by
  have hlast := fmt_lastDay (y := y) hm
  have hlong := daysInMonth_range y m
  have hsecond : dayNumber y m 2 < firstDay (12 * y + m + 1) := by
    rw [lt_firstDay_iff, monthIndex_dayNumber hm (by omega)]
    omega
  rw [fmt_eq] at hlast
  unfold dayNumber at hlast hsecond
  simp only at hlast hsecond
  omega

theorem civil_firstDay (i : ℤ) : civil (firstDay i) = ⟨(i - 1) / 12, (i - 1) % 12 + 1, 1⟩ := by
  have hindex := monthIndex_firstDay i
  have hday := dayNumber_civil (firstDay i)
  obtain ⟨hm, -⟩ := civil_range (firstDay i)
  rw [monthIndex_civil] at hindex
  have hy : (civil (firstDay i)).y = (i - 1) / 12 := by omega
  have hmonth : (civil (firstDay i)).m = (i - 1) % 12 + 1 := by omega
  have hd : (civil (firstDay i)).d = 1 := by
    rw [hy, hmonth] at hday
    conv_rhs at hday => rw [firstDay, fmt_eq]
    unfold dayNumber at hday
    simp only at hday
    omega
  calc civil (firstDay i)
      = ⟨(civil (firstDay i)).y, (civil (firstDay i)).m, (civil (firstDay i)).d⟩ := rfl
    _ = ⟨(i - 1) / 12, (i - 1) % 12 + 1, 1⟩ := by rw [hy, hmonth, hd]

end FirstDay

section FiscalYears

variable {fyStartMonth k d : ℤ}

/-- The fiscal year of a date, by the calendar year that it starts in. -/
def fiscalYear (d fyStartMonth : ℤ) : ℤ :=
  if (civil d).m < fyStartMonth then (civil d).y - 1 else (civil d).y

/-- The first day of a fiscal year. -/
def fiscalFirst (k fyStartMonth : ℤ) : ℤ := firstDay (12 * k + fyStartMonth)

/-- A fiscal year's first day is the least of it and of the years after it. -/
theorem fiscalFirst_le_iff (hfy : 1 ≤ fyStartMonth ∧ fyStartMonth ≤ 12) :
    fiscalFirst k fyStartMonth ≤ d ↔ k ≤ fiscalYear d fyStartMonth := by
  obtain ⟨hm, -⟩ := civil_range d
  rw [fiscalFirst, firstDay_le_iff, monthIndex_civil, fiscalYear]
  split_ifs <;> omega

theorem fsFiscalYearStart_eq (hfy : 1 ≤ fyStartMonth ∧ fyStartMonth ≤ 12) :
    fsFiscalYearStart d fyStartMonth = fiscalFirst (fiscalYear d fyStartMonth) fyStartMonth := by
  rw [fiscalFirst, ← fmt_first hfy]
  rfl

theorem fsShiftYears_first (hfy : 1 ≤ fyStartMonth ∧ fyStartMonth ≤ 12) :
    fsShiftYears (fiscalFirst k fyStartMonth) 1 = fiscalFirst (k + 1) fyStartMonth := by
  have hy : (12 * k + fyStartMonth - 1) / 12 = k := by omega
  have hm : (12 * k + fyStartMonth - 1) % 12 + 1 = fyStartMonth := by omega
  have hthis := one_lt_lastDay (y := k) hfy
  have hnext := one_lt_lastDay (y := k + 1) hfy
  unfold fsShiftYears
  rw [fiscalFirst, civil_firstDay, hy, hm]
  change fmt (k + 1) fyStartMonth (if 1 = lastDay k fyStartMonth then lastDay (k + 1) fyStartMonth
    else min 1 (lastDay (k + 1) fyStartMonth)) = _
  rw [if_neg (by omega), min_eq_left hnext.le, fmt_first hfy]
  rfl

theorem fsFiscalYearEnd_eq (hfy : 1 ≤ fyStartMonth ∧ fyStartMonth ≤ 12) :
    fsFiscalYearEnd d fyStartMonth =
      fiscalFirst (fiscalYear d fyStartMonth + 1) fyStartMonth - 1 := by
  rw [fsFiscalYearEnd, fsFiscalYearStart_eq hfy, fsShiftYears_first hfy]
  rfl

end FiscalYears

section Composed

variable {M : Type*} [AddCommGroup M] (activity : ℤ → M) {fyStartMonth a b c start stop : ℤ}

/-- The activity on the days of a range. -/
def activityOn (start stop : ℤ) : M :=
  ((List.range (stop + 1 - start).toNat).map fun i : ℕ => activity (start + i)).sum

/-- The activity from the first day of the fiscal year on. -/
def yearToDate (fyStartMonth d : ℤ) : M := activityOn activity (fsFiscalYearStart d fyStartMonth) d

theorem activityOn_split (hab : a ≤ b + 1) (hbc : b ≤ c) :
    activityOn activity a c = activityOn activity a b + activityOn activity (b + 1) c := by
  have hdays : (c + 1 - a).toNat = (b + 1 - a).toNat + (c + 1 - (b + 1)).toNat := by omega
  have hlater : ∀ i : ℕ, a + ((b + 1 - a).toNat + i : ℕ) = b + 1 + i := by
    intro i
    omega
  unfold activityOn
  rw [hdays, List.range_add, List.map_append, List.sum_append, List.map_map]
  simp only [Function.comp_def, hlater]

theorem activityOn_empty (h : b < a) : activityOn activity a b = 0 := by
  have hnone : (b + 1 - a).toNat = 0 := by omega
  rw [activityOn, hnone]
  rfl

/-- The signed figures of the dates that a range is composed of. -/
def composedSum (figure : ℤ → M) (cs : List FsComposed) : M :=
  (cs.map fun c => c.sign • figure c.date).sum

theorem composedSum_append (figure : ℤ → M) (cs cs' : List FsComposed) :
    composedSum figure (cs ++ cs') = composedSum figure cs + composedSum figure cs' := by
  rw [composedSum, List.map_append, List.sum_append]
  rfl

theorem composeFrom_done (h : stop < a) : ∀ n, composeFrom stop fyStartMonth n a = []
  | 0 => rfl
  | n + 1 => by rw [composeFrom, if_neg (by omega)]

/-- The figures of one round: the year to date at its end, less that before its start. -/
theorem yearToDate_sub (hfy : 1 ≤ fyStartMonth ∧ fyStartMonth ≤ 12) (hab : a ≤ b)
    (hb : b ≤ fsFiscalYearEnd a fyStartMonth) :
    composedSum (yearToDate activity fyStartMonth) (⟨b, 1⟩ ::
      if a ≠ fsFiscalYearStart a fyStartMonth then [⟨fsAddDays a (-1), -1⟩] else []) =
      activityOn activity a b := by
  rw [fsFiscalYearEnd_eq hfy] at hb
  have hsame : ∀ d, fsFiscalYearStart a fyStartMonth ≤ d → d ≤ b →
      fsFiscalYearStart d fyStartMonth = fsFiscalYearStart a fyStartMonth := by
    intro d hd hdb
    rw [fsFiscalYearStart_eq hfy] at hd
    have hge := (fiscalFirst_le_iff hfy).mp hd
    have hlt : ¬ fiscalYear a fyStartMonth + 1 ≤ fiscalYear d fyStartMonth := by
      rw [← fiscalFirst_le_iff hfy]
      omega
    have hyear : fiscalYear d fyStartMonth = fiscalYear a fyStartMonth := by omega
    rw [fsFiscalYearStart_eq hfy, fsFiscalYearStart_eq hfy, hyear]
  have hstart : fsFiscalYearStart a fyStartMonth ≤ a := by
    rw [fsFiscalYearStart_eq hfy, fiscalFirst_le_iff hfy]
  have hend : yearToDate activity fyStartMonth b =
      activityOn activity (fsFiscalYearStart a fyStartMonth) b := by
    rw [yearToDate, hsame b (by omega) le_rfl]
  split_ifs with hfirst
  · have hbefore : yearToDate activity fyStartMonth (a - 1) =
        activityOn activity (fsFiscalYearStart a fyStartMonth) (a - 1) := by
      rw [yearToDate, hsame (a - 1) (by omega) (by omega)]
    have hsplit := activityOn_split activity (a := fsFiscalYearStart a fyStartMonth) (b := a - 1)
      (c := b) (by omega) (by omega)
    rw [sub_add_cancel] at hsplit
    simp only [composedSum, List.map_cons, List.map_nil, List.sum_cons, List.sum_nil, one_zsmul,
      neg_one_zsmul, add_zero, fsAddDays, ← sub_eq_add_neg]
    rw [hend, hbefore, hsplit, add_sub_cancel_left]
  · rw [not_not] at hfirst
    simp only [composedSum, List.map_cons, List.map_nil, List.sum_cons, List.sum_nil, one_zsmul,
      add_zero]
    rw [hend, ← hfirst]

/-- Each round leaves a range that starts with the next fiscal year. -/
theorem composeFrom_sum (hfy : 1 ≤ fyStartMonth ∧ fyStartMonth ≤ 12) : ∀ (n : ℕ) (a : ℤ),
    fiscalYear stop fyStartMonth - fiscalYear a fyStartMonth < n →
    composedSum (yearToDate activity fyStartMonth) (composeFrom stop fyStartMonth n a) =
      activityOn activity a stop := by
  intro n
  induction n with
  | zero =>
    intro a ha
    have hstop : stop < a := by
      by_contra hle
      rw [not_lt] at hle
      have hfirst : fiscalFirst (fiscalYear a fyStartMonth) fyStartMonth ≤ stop :=
        ((fiscalFirst_le_iff hfy).mpr le_rfl).trans hle
      have hyears := (fiscalFirst_le_iff hfy).mp hfirst
      omega
    rw [activityOn_empty activity hstop]
    rfl
  | succ n ih =>
    intro a ha
    rw [composeFrom]
    by_cases hle : a ≤ stop
    · rw [if_pos hle]
      simp only
      set b := if stop < fsFiscalYearEnd a fyStartMonth then stop
        else fsFiscalYearEnd a fyStartMonth with hb
      have hround : a ≤ b ∧ b ≤ stop ∧ b ≤ fsFiscalYearEnd a fyStartMonth := by
        have hnext : a < fiscalFirst (fiscalYear a fyStartMonth + 1) fyStartMonth := by
          rw [← not_le, fiscalFirst_le_iff hfy]
          omega
        rw [fsFiscalYearEnd_eq hfy] at hb ⊢
        split_ifs at hb <;> omega
      have hrest : composedSum (yearToDate activity fyStartMonth)
          (composeFrom stop fyStartMonth n (fsAddDays b 1)) = activityOn activity (b + 1) stop := by
        rcases hround.2.1.eq_or_lt with hstop | hlt
        · rw [fsAddDays, composeFrom_done (by omega), activityOn_empty activity (by omega)]
          rfl
        · apply ih
          have hlast : b = fsFiscalYearEnd a fyStartMonth := by
            split_ifs at hb <;> omega
          have hyear : fiscalYear a fyStartMonth + 1 ≤ fiscalYear (fsAddDays b 1) fyStartMonth := by
            rw [← fiscalFirst_le_iff hfy, hlast, fsFiscalYearEnd_eq hfy, fsAddDays]
            omega
          omega
      rw [composedSum_append, yearToDate_sub activity hfy hround.1 hround.2.2, hrest,
        ← activityOn_split activity (by omega) hround.2.1]
    · rw [if_neg hle, activityOn_empty activity (by omega)]
      rfl

/-- How many fiscal years a range touches. -/
def fiscalYearsSpanned (start stop fyStartMonth : ℤ) : ℤ :=
  fiscalYear stop fyStartMonth - fiscalYear start fyStartMonth + 1

theorem rangeComposition_sum (hfy : 1 ≤ fyStartMonth ∧ fyStartMonth ≤ 12)
    (hspan : fiscalYearsSpanned start stop fyStartMonth ≤ 100) :
    composedSum (yearToDate activity fyStartMonth) (fsRangeComposition start stop fyStartMonth) =
      activityOn activity start stop := by
  unfold fiscalYearsSpanned at hspan
  exact composeFrom_sum activity hfy 100 start (by omega)

end Composed

section Settings

structure ZodIssue where
  message : String
  path : List String
  deriving DecidableEq, Repr

def monthsSpanned (start stop : ℤ) : ℤ :=
  ((civil stop).y - (civil start).y) * 12 + ((civil stop).m - (civil start).m) + 1

/-- How many columns the period has side by side. -/
def slicesSpanned (s : FsReportSettings) (start : ℤ) : ℤ :=
  let months := monthsSpanned start s.periodEnd
  if s.columns.byQuarter then (months + 2) / 3 else months

/-- What `fsReportSettingsSchema` finds wrong with settings whose fields are well formed. -/
def fsReportSettingsIssues (s : FsReportSettings) : List ZodIssue :=
  let mode := s.columns.mode
  let word := if s.columns.byQuarter then "quarters" else "months"
  (if s.period.any fun p => s.periodEnd < p.start then
    [⟨"The period start must be on or before the period end.", ["period", "start"]⟩] else []) ++
  (if s.framework = .tax ∧ ((s.period.any fun p => p.type ≠ .annual) ∨ mode = .monthYtd ∨
      mode = .periodYtd ∨ mode = .periodYtdPy ∨ mode = .sideBySide) then
    [⟨"Income-tax-basis statements are annual only (tax adjustments are not dated).",
      ["period", "type"]⟩] else []) ++
  (if mode = .sideBySide then
    match s.period with
    | none => [⟨"Side-by-side columns need a reporting period.", ["columns", "mode"]⟩]
    | some p =>
      let slices := slicesSpanned s p.start
      if slices < 2 ∨ slices > 13 then
        [⟨s!"Side-by-side needs 2 to 13 {word} (this period has {slices}).",
          ["columns", "sideBy"]⟩]
      else []
  else [])

/-- Accepted settings side by side have a period, of 2 to 13 columns. -/
theorem period_of_accepted {s : FsReportSettings} (h : fsReportSettingsIssues s = [])
    (hmode : s.columns.mode = .sideBySide) :
    ∃ p, s.period = some p ∧ p.start ≤ s.periodEnd ∧ slicesSpanned s p.start ≤ 13 := by
  unfold fsReportSettingsIssues at h
  simp only [List.append_eq_nil_iff, hmode, if_true] at h
  obtain ⟨⟨hstart, -⟩, hslices⟩ := h
  cases hp : s.period with
  | none => simp [hp] at hslices
  | some p =>
    rw [hp] at hstart hslices
    simp only [Option.any_some, decide_eq_true_eq, ite_eq_right_iff, List.cons_ne_nil, imp_false,
      not_lt, not_or] at hstart hslices
    exact ⟨p, rfl, hstart, by omega⟩

end Settings

section Slices

/-- Ranges that follow each other from one day to another. -/
def Covers (stop : ℤ) : ℤ → List FsPlanRange → Prop
  | a, [] => a = stop + 1
  | a, r :: rs => r.start = a ∧ r.start ≤ r.stop ∧ Covers stop (r.stop + 1) rs

variable {stop d : ℤ}

theorem Covers.bounds : ∀ {rs : List FsPlanRange} {a : ℤ}, Covers stop a rs →
    a ≤ stop + 1 ∧ ∀ r ∈ rs, a ≤ r.start ∧ r.start ≤ r.stop ∧ r.stop ≤ stop
  | [], a, h => ⟨h.le, by simp⟩
  | r :: rs, a, ⟨hstart, hle, hrest⟩ => by
    obtain ⟨hstop, hbounds⟩ := hrest.bounds
    refine ⟨by omega, fun r' hr' => ?_⟩
    rcases List.mem_cons.mp hr' with rfl | hr'
    · omega
    · have := hbounds r' hr'
      omega

/-- They have no day in common. -/
theorem Covers.disjoint : ∀ {rs : List FsPlanRange} {a : ℤ}, Covers stop a rs →
    rs.Pairwise fun r r' => r.stop < r'.start
  | [], _, _ => List.Pairwise.nil
  | _ :: _, _, ⟨_, _, hrest⟩ =>
    List.Pairwise.cons (fun r' hr' => by have := hrest.bounds.2 r' hr'; omega) hrest.disjoint

/-- Every day from the one to the other is in one of them, and no other is. -/
theorem Covers.mem_iff : ∀ {rs : List FsPlanRange} {a : ℤ}, Covers stop a rs →
    ((a ≤ d ∧ d ≤ stop) ↔ ∃ r ∈ rs, r.start ≤ d ∧ d ≤ r.stop)
  | [], a, h => by
    obtain rfl : a = stop + 1 := h
    constructor
    · rintro ⟨hlo, hhi⟩
      omega
    · rintro ⟨r, hr, -⟩
      exact absurd hr List.not_mem_nil
  | r :: rs, a, ⟨hstart, hle, hrest⟩ => by
    have ih := hrest.mem_iff
    have hstop := hrest.bounds.1
    rw [List.exists_mem_cons_iff, ← ih]
    omega

theorem Covers.activity {M : Type*} [AddCommGroup M] (activity : ℤ → M) :
    ∀ {rs : List FsPlanRange} {a : ℤ}, Covers stop a rs →
      (rs.map fun r => activityOn activity r.start r.stop).sum = activityOn activity a stop
  | [], a, h => by
    rw [activityOn_empty activity (show stop < a by have : a = stop + 1 := h; omega)]
    rfl
  | r :: rs, a, ⟨hstart, hle, hrest⟩ => by
    have hstop := hrest.bounds.1
    rw [List.map_cons, List.sum_cons, hrest.activity, ← hstart,
      ← activityOn_split activity (by omega) (by omega)]

variable {p : FsPlanRange} {step : ℤ}

/-- The cursor is the first day of a month, and the slices left cover what is left of the period. -/
theorem slicesFrom_covers (hperiod : p.start ≤ p.stop) (hstep : 0 < step) : ∀ (n : ℕ) (c : ℤ),
    monthIndex p.start < c + step → monthIndex p.stop < c + n * step →
    Covers p.stop (min (max p.start (firstDay c)) (p.stop + 1))
      (slicesFrom p step n (firstDay c)) := by
  intro n
  induction n with
  | zero =>
    intro c _ hfuel
    have hdone : p.stop < firstDay c := lt_firstDay_iff.mpr (by simpa using hfuel)
    unfold slicesFrom Covers
    omega
  | succ n ih =>
    intro c hfirst hfuel
    rw [slicesFrom]
    by_cases hle : firstDay c ≤ p.stop
    · have hnext : monthStart (firstDay c) step = firstDay (c + step) := by
        rw [monthStart_eq, monthIndex_firstDay]
      have hend : monthEnd (monthStart (firstDay c) (step - 1)) = firstDay (c + step) - 1 := by
        rw [monthEnd_eq, monthStart_eq, monthIndex_firstDay, monthIndex_firstDay]
        congr 2
        omega
      have hstart : p.start < firstDay (c + step) := lt_firstDay_iff.mpr hfirst
      have hcursor : firstDay c < firstDay (c + step) := by
        rw [lt_firstDay_iff, monthIndex_firstDay]
        omega
      have hcovers := ih (c + step) (by omega) (by push_cast at hfuel; linarith)
      rw [if_pos hle]
      simp only [hnext, hend]
      refine ⟨?_, ?_, ?_⟩
      · simp only
        split_ifs <;> omega
      · simp only
        split_ifs <;> omega
      · have hrest : (if p.stop < firstDay (c + step) - 1 then p.stop else firstDay (c + step) - 1)
            + 1 = min (max p.start (firstDay (c + step))) (p.stop + 1) := by
          split_ifs <;> omega
        simp only [gt_iff_lt]
        rw [hrest]
        exact hcovers
    · rw [if_neg hle]
      unfold Covers
      omega

end Slices

section Columns

variable {ctx : EngineCtx} {id : Id}

/-- An account's amount on a map, zero where it has none. -/
def amountOf (m : Option Balances) (id : Id) : ℤ := ((m.getD []).get? id).getD 0

/-- The workpapers that the income statement's columns are composed of. -/
def EngineCtx.plWorkpapers (ctx : EngineCtx) : Entries ℤ FsSourcePeriod :=
  ctx.source.tagged.getD ctx.source.workpapers

/-- The workpapers of a range's dates hold the account's activity for the year to date, with each
account once. -/
def EngineCtx.HoldsYtd (ctx : EngineCtx) (id : Id) (activity : ℤ → ℤ) (r : FsPlanRange) : Prop :=
  ∀ c ∈ fsRangeComposition r.start r.stop ctx.source.fyStartMonth,
    (((toMap (ctx.plWorkpapers.get? c.date) ctx.tax).getD []).keys.Nodup) ∧
      amountOf (toMap (ctx.plWorkpapers.get? c.date) ctx.tax) id =
        yearToDate activity ctx.source.fyStartMonth c.date

theorem foldl_part (sign : ℤ) (hid : ¬ctx.isBsAcct id) : ∀ (m out : Balances), m.keys.Nodup →
    ((m.foldl (fun out e =>
      if ctx.isBsAcct e.1 then out else out.add e.1 (sign * e.2)) out).get? id).getD 0 =
    (out.get? id).getD 0 + sign * (m.get? id).getD 0
  | [], out, _ => by simp
  | e :: m, out, h => by
    obtain ⟨hnot, hm⟩ := List.nodup_cons.mp h
    rw [List.foldl_cons, foldl_part sign hid m _ hm, Entries.get?_cons]
    by_cases he : e.1 = id
    · have hnone : Entries.get? m id = none := by
        by_contra hsome
        obtain ⟨v, hv⟩ := Option.ne_none_iff_exists'.mp hsome
        exact hnot (he ▸ Entries.mem_keys_of_get? hv)
      rw [he, if_neg hid, if_pos rfl, Entries.get?_add, if_pos rfl, hnone]
      simp
    · rw [if_neg he]
      split_ifs
      · rfl
      · rw [Entries.get?_add, if_neg he]

theorem foldl_part_bs (sign : ℤ) (hid : ctx.isBsAcct id) : ∀ (m out : Balances),
    (m.foldl (fun out e =>
      if ctx.isBsAcct e.1 then out else out.add e.1 (sign * e.2)) out).get? id = out.get? id
  | [], out => rfl
  | e :: m, out => by
    rw [List.foldl_cons, foldl_part_bs sign hid m]
    split_ifs with he
    · rfl
    · have hne : e.1 ≠ id := fun h => he (h ▸ hid)
      rw [Entries.get?_add, if_neg hne]

/-- The workpapers in, with their signs, as the columns take them. -/
def EngineCtx.parts (ctx : EngineCtx) (cs : List FsComposed) : List (ℤ × Balances) :=
  cs.filterMap fun c => (toMap (ctx.plWorkpapers.get? c.date) ctx.tax).map fun m => (c.sign, m)

def EngineCtx.addParts (ctx : EngineCtx) (parts : List (ℤ × Balances)) (out : Balances) :
    Balances :=
  parts.foldl (fun out part => part.2.foldl (fun out e =>
    if ctx.isBsAcct e.1 then out else out.add e.1 (part.1 * e.2)) out) out

theorem plActivity_eq (r : FsPlanRange) : (ctx.plActivity r).getD [] =
    ctx.addParts (ctx.parts (fsRangeComposition r.start r.stop ctx.source.fyStartMonth)) [] := by
  unfold EngineCtx.plActivity EngineCtx.compose
  simp only
  split_ifs with hnone
  · unfold EngineCtx.parts EngineCtx.plWorkpapers
    rw [hnone]
    rfl
  · rfl

theorem plActivity_bs (hid : ctx.isBsAcct id) (r : FsPlanRange) :
    amountOf (ctx.plActivity r) id = 0 := by
  have hkeep : ∀ (parts : List (ℤ × Balances)) (out : Balances),
      (ctx.addParts parts out).get? id = out.get? id := by
    intro parts
    induction parts with
    | nil => exact fun _ => rfl
    | cons part parts ih =>
      intro out
      rw [EngineCtx.addParts, List.foldl_cons]
      exact (ih _).trans (foldl_part_bs part.1 hid part.2 out)
  rw [amountOf, plActivity_eq, hkeep]
  rfl

/-- The parts add up to the signed figures. -/
theorem addParts_amount (figure : ℤ → ℤ) (hid : ¬ctx.isBsAcct id) : ∀ (cs : List FsComposed)
    (out : Balances), (∀ c ∈ cs,
      ((toMap (ctx.plWorkpapers.get? c.date) ctx.tax).getD []).keys.Nodup ∧
      amountOf (toMap (ctx.plWorkpapers.get? c.date) ctx.tax) id = figure c.date) →
    ((ctx.addParts (ctx.parts cs) out).get? id).getD 0 =
      (out.get? id).getD 0 + composedSum figure cs
  | [], out, _ => by simp [EngineCtx.parts, EngineCtx.addParts, composedSum]
  | c :: cs, out, h => by
    obtain ⟨⟨hkeys, hc⟩, hcs⟩ := List.forall_mem_cons.mp h
    have ih := addParts_amount figure hid cs
    have hsum : composedSum figure (c :: cs) = c.sign * figure c.date + composedSum figure cs := by
      rw [composedSum, List.map_cons, List.sum_cons]
      rfl
    cases hraw : toMap (ctx.plWorkpapers.get? c.date) ctx.tax with
    | none =>
      have hzero : figure c.date = 0 := by rw [← hc, hraw]; rfl
      rw [EngineCtx.parts, List.filterMap_cons, hraw]
      rw [hsum, hzero, mul_zero, zero_add]
      exact ih out hcs
    | some m =>
      rw [hraw] at hc hkeys
      have hpart := foldl_part c.sign hid m out hkeys
      rw [EngineCtx.parts, List.filterMap_cons, hraw]
      rw [EngineCtx.addParts, Option.map_some, List.foldl_cons]
      refine (ih _ hcs).trans ?_
      rw [hpart, hsum, ← hc, add_assoc]
      rfl

/-- An account's composed amount is its activity on the range. -/
theorem plActivity_amount {activity : ℤ → ℤ} {r : FsPlanRange}
    (hfy : 1 ≤ ctx.source.fyStartMonth ∧ ctx.source.fyStartMonth ≤ 12)
    (hspan : fiscalYearsSpanned r.start r.stop ctx.source.fyStartMonth ≤ 100)
    (hid : ¬ctx.isBsAcct id) (hytd : ctx.HoldsYtd id activity r) :
    amountOf (ctx.plActivity r) id = activityOn activity r.start r.stop := by
  rw [amountOf, plActivity_eq, addParts_amount _ hid _ _ hytd,
    rangeComposition_sum activity hfy hspan]
  simp

end Columns

section SideBySide

variable {settings : FsReportSettings} {p : FsPeriod} {fyStartMonth : ℤ}

theorem fiscalYear_eq (hfy : 1 ≤ fyStartMonth ∧ fyStartMonth ≤ 12) (d : ℤ) :
    fiscalYear d fyStartMonth = (monthIndex d - fyStartMonth) / 12 := by
  obtain ⟨hm, -⟩ := civil_range d
  rw [fiscalYear, monthIndex_civil]
  split_ifs <;> omega

theorem monthsSpanned_eq (start stop : ℤ) :
    monthsSpanned start stop = monthIndex stop - monthIndex start + 1 := by
  rw [monthsSpanned, monthIndex_civil, monthIndex_civil]
  ring

/-- The months or quarters of a side-by-side plan. -/
def sideBySideSlices (settings : FsReportSettings) (p : FsPeriod) : List FsPlanRange :=
  slicesFrom ⟨"P", p.start, settings.periodEnd⟩ (if settings.columns.byQuarter then 3 else 1) 24
    (monthStart p.start)

theorem isRanges_sideBySide (fyStartMonth : ℤ) (hperiod : settings.period = some p)
    (hmode : settings.columns.mode = .sideBySide) :
    (fsPlanColumns settings fyStartMonth).isRanges =
      sideBySideSlices settings p ++ [⟨"P", p.start, settings.periodEnd⟩] := by
  unfold fsPlanColumns normalizeFsSettings sideBySideSlices
  simp [hmode, hperiod]

theorem sideBySideSlices_covers (hle : p.start ≤ settings.periodEnd)
    (hslices : slicesSpanned settings p.start ≤ 13) :
    Covers settings.periodEnd p.start (sideBySideSlices settings p) := by
  unfold slicesSpanned at hslices
  simp only [monthsSpanned_eq] at hslices
  have hmonth : firstDay (monthIndex p.start) ≤ p.start := firstDay_le_iff.mpr le_rfl
  have hstep : (0 : ℤ) < if settings.columns.byQuarter then 3 else 1 := by split_ifs <;> omega
  have hcovers := slicesFrom_covers (p := ⟨"P", p.start, settings.periodEnd⟩) hle hstep 24
    (monthIndex p.start) (by split_ifs <;> simp) (by split_ifs at hslices ⊢ <;> simp <;> omega)
  rw [sideBySideSlices, monthStart_eq, add_zero]
  simpa [max_eq_left hmonth, show p.start ≤ settings.periodEnd + 1 by omega] using hcovers

theorem slice_span (hfy : 1 ≤ fyStartMonth ∧ fyStartMonth ≤ 12)
    (hslices : slicesSpanned settings p.start ≤ 13) {start stop : ℤ} (hstart : p.start ≤ start)
    (hstop : stop ≤ settings.periodEnd) : fiscalYearsSpanned start stop fyStartMonth ≤ 100 := by
  have hlo := monthIndex_mono hstart
  have hhi := monthIndex_mono hstop
  unfold slicesSpanned at hslices
  simp only [monthsSpanned_eq] at hslices
  unfold fiscalYearsSpanned
  rw [fiscalYear_eq hfy, fiscalYear_eq hfy]
  split_ifs at hslices <;> omega

/-- Slices that cover a range come to its amount, account by account. -/
theorem slices_amount {ctx : EngineCtx} {id : Id} {activity : ℤ → ℤ} {slices : List FsPlanRange}
    {total : FsPlanRange} (hfy : 1 ≤ ctx.source.fyStartMonth ∧ ctx.source.fyStartMonth ≤ 12)
    (hcovers : Covers total.stop total.start slices)
    (hspan : ∀ r : FsPlanRange, total.start ≤ r.start ∧ r.stop ≤ total.stop →
      fiscalYearsSpanned r.start r.stop ctx.source.fyStartMonth ≤ 100)
    (hytd : ∀ r ∈ slices ++ [total], ctx.HoldsYtd id activity r) :
    (slices.map fun r => amountOf (ctx.plActivity r) id).sum =
      amountOf (ctx.plActivity total) id := by
  by_cases hid : ctx.isBsAcct id
  · rw [plActivity_bs hid]
    apply List.sum_eq_zero
    intro x hx
    obtain ⟨r, -, rfl⟩ := List.mem_map.mp hx
    exact plActivity_bs hid r
  · have hslice : ∀ r ∈ slices,
        amountOf (ctx.plActivity r) id = activityOn activity r.start r.stop := by
      intro r hr
      have hbounds := hcovers.bounds.2 r hr
      exact plActivity_amount hfy (hspan r ⟨hbounds.1, hbounds.2.2⟩) hid
        (hytd r (List.mem_append_left _ hr))
    rw [List.map_congr_left hslice, hcovers.activity, plActivity_amount hfy
      (hspan total ⟨le_rfl, le_rfl⟩) hid (hytd total (by simp))]

end SideBySide

/-- Figures for the year to date compose the activity of any range of at most a hundred fiscal
years, and side by side the slices cover the period, each day once, and come to the Total account
by account. -/
theorem ranges_composed {M : Type*} [AddCommGroup M] {fyStartMonth : ℤ}
    (hfy : 1 ≤ fyStartMonth ∧ fyStartMonth ≤ 12) :
    (∀ (activity : ℤ → M) (start stop : ℤ), start ≤ stop →
      fiscalYearsSpanned start stop fyStartMonth ≤ 100 →
      composedSum (yearToDate activity fyStartMonth) (fsRangeComposition start stop fyStartMonth) =
        activityOn activity start stop) ∧
    ∀ (settings : FsReportSettings) (style : FsNumberStyle) (source : FsSourceData),
      source.fyStartMonth = fyStartMonth → fsReportSettingsIssues settings = [] →
      settings.columns.mode = .sideBySide →
      ∃ (period : FsPeriod) (slices : List FsPlanRange) (total : FsPlanRange),
        settings.period = some period ∧
        (buildContext settings style source).plan.isRanges = slices ++ [total] ∧
        total.start = period.start ∧ total.stop = settings.periodEnd ∧
        Covers settings.periodEnd period.start slices ∧
        (slices.Pairwise fun r r' => r.stop < r'.start) ∧
        (∀ d, (period.start ≤ d ∧ d ≤ settings.periodEnd) ↔
          ∃ r ∈ slices, r.start ≤ d ∧ d ≤ r.stop) ∧
        ∀ (id : Id) (activity : ℤ → ℤ),
          (∀ r ∈ (buildContext settings style source).plan.isRanges,
            (buildContext settings style source).HoldsYtd id activity r) →
          (slices.map fun r =>
            amountOf ((buildContext settings style source).plActivity r) id).sum =
            amountOf ((buildContext settings style source).plActivity total) id := by
  refine ⟨fun activity start stop _ hspan => rangeComposition_sum activity hfy hspan, ?_⟩
  intro settings style source hsource haccepted hmode
  obtain ⟨p, hperiod, hle, hslices⟩ := period_of_accepted haccepted hmode
  have hranges := isRanges_sideBySide source.fyStartMonth hperiod hmode
  have hcovers := sideBySideSlices_covers hle hslices
  refine ⟨p, sideBySideSlices settings p, ⟨"P", p.start, settings.periodEnd⟩, hperiod, hranges,
    rfl, rfl, hcovers, hcovers.disjoint, fun d => hcovers.mem_iff, ?_⟩
  intro id activity hytd
  subst hsource
  have hmem := hranges ▸ hytd
  exact slices_amount hfy hcovers (fun r hr => slice_span hfy hslices hr.1 hr.2) hmem

section Winter

/-- From 15 January to 1 March 2024, by month. -/
def winterSettings : FsReportSettings where
  periodEnd := fmt 2024 3 1
  period := some ⟨.custom, fmt 2024 1 15⟩
  framework := .gaap
  columns := { mode := .sideBySide, byQuarter := false, sameDate := false, byYear := false }
  tagId := none

def winterPaper (sales : Dec) : FsSourcePeriod where
  balances := [("cash", -sales), ("sales", sales)]

def winterSource : FsSourceData where
  entityKind := .corporation
  accounts := [⟨"cash", none, "Cash", .asset, none, none⟩,
    ⟨"sales", none, "Sales", .revenue, none, none⟩]
  groupings := []
  fyStartMonth := 1
  workpapers := [(fmt 2024 1 14, winterPaper (-100)), (fmt 2024 1 31, winterPaper (-100)),
    (fmt 2024 2 29, winterPaper (-350)), (fmt 2024 3 1, winterPaper (-360))]
  reAccountId := "re"
  equityRoles := []
  cashFlowOverrides := []

/-- Sales on 3 January, 29 February and 1 March. -/
def winterSales (d : ℤ) : ℤ :=
  if d = fmt 2024 1 3 then -1000000
  else if d = fmt 2024 2 29 then -2500000
  else if d = fmt 2024 3 1 then -100000
  else 0

theorem winter_composed :
    composedSum (yearToDate winterSales 1)
        (fsRangeComposition (fmt 2023 11 20) (fmt 2024 3 1) 1) =
      activityOn winterSales (fmt 2023 11 20) (fmt 2024 3 1) ∧
    ∃ (slices : List FsPlanRange) (total : FsPlanRange),
      (buildContext winterSettings ⟨false, false⟩ winterSource).plan.isRanges = slices ++ [total] ∧
      (slices.map fun r => amountOf
        ((buildContext winterSettings ⟨false, false⟩ winterSource).plActivity r) "sales").sum =
      amountOf ((buildContext winterSettings ⟨false, false⟩ winterSource).plActivity total)
        "sales" := by
  obtain ⟨hsum, hsides⟩ := @ranges_composed ℤ _ 1 (by decide)
  refine ⟨hsum winterSales (fmt 2023 11 20) (fmt 2024 3 1) (by decide) (by decide), ?_⟩
  obtain ⟨_, slices, total, -, hranges, -, -, -, -, -, hamounts⟩ :=
    hsides winterSettings ⟨false, false⟩ winterSource rfl (by decide) rfl
  refine ⟨slices, total, hranges, hamounts "sales" winterSales ?_⟩
  unfold EngineCtx.HoldsYtd
  decide +kernel

end Winter

end MyBooks
