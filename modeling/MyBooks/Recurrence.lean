import Mathlib.Tactic.IntervalCases
import MyBooks.Calendar

/-!
# The next date of a recurring schedule

Days and weeks are counted from the date, months from the anchor with the day clamped to the target
month. The next date is strictly later in every cadence (`lt_nextRecurrenceDate`): an anchored
candidate of a later month is a later day, so the search for one takes two tries.
-/

namespace MyBooks

/-- The day number of a civil date. -/
def dayNumber (y m d : ℤ) : ℤ :=
  let y' := if m ≤ 2 then y - 1 else y
  let m' := if m ≤ 2 then m + 9 else m - 3
  yearStart y' + (153 * m' + 2) / 5 + d - 1 - 719468

def daysInMonth (year month : ℤ) : ℤ :=
  if month = 2 then if isLeap year then 29 else 28
  else if month = 4 ∨ month = 6 ∨ month = 9 ∨ month = 11 then 30
  else 31

inductive Frequency
  | daily
  | weekly
  | biweekly
  | semimonthly
  | monthly
  | quarterly
  | annually
  deriving DecidableEq

/-- The anchor moved forward `months` months, day clamped to the target month. -/
def clampAddMonths (anchor : ℤ) (months : ℤ) : ℤ :=
  let idx := (civil anchor).y * 12 + ((civil anchor).m - 1) + months
  let year := idx / 12
  let month := idx % 12 + 1
  dayNumber year month (min (civil anchor).d (daysInMonth year month))

/-- The loop from the `k`-th candidate on, with `tries` tries. -/
def anchoredFrom (date anchor stepMonths : ℤ) : ℕ → ℤ → ℤ
  | 0, k => clampAddMonths anchor (k * stepMonths)
  | tries + 1, k =>
    let candidate := clampAddMonths anchor (k * stepMonths)
    if candidate ≤ date then anchoredFrom date anchor stepMonths tries (k + 1) else candidate

def anchoredAfter (date anchor stepMonths : ℤ) : ℤ :=
  let distance := ((civil date).y - (civil anchor).y) * 12 + ((civil date).m - (civil anchor).m)
  anchoredFrom date anchor stepMonths 1 (max 0 (distance / stepMonths))

def nextRecurrenceDate (date : ℤ) (frequency : Frequency) (interval : ℤ) (anchor : ℤ) : ℤ :=
  let step := max 1 interval
  match frequency with
  | .daily => date + step
  | .weekly => date + 7 * step
  | .biweekly => date + 14 * step
  | .semimonthly =>
    let c := civil date
    if 15 ≤ c.d then if c.m = 12 then dayNumber (c.y + 1) 1 1 else dayNumber c.y (c.m + 1) 1
    else dayNumber c.y c.m 15
  | .quarterly => anchoredAfter date anchor (3 * step)
  | .annually => anchoredAfter date anchor (12 * step)
  | .monthly => anchoredAfter date anchor step

example :
    nextRecurrenceDate (dayNumber 2026 1 31) .monthly 1 (dayNumber 2026 1 31) = dayNumber 2026 2 28 ∧
      nextRecurrenceDate (dayNumber 2026 2 28) .monthly 1 (dayNumber 2026 1 31) = dayNumber 2026 3 31 := by
  decide

theorem marchYear_eq {y z : ℤ} (h : yearStart y ≤ z) (h' : z < yearStart (y + 1)) :
    marchYear z = y := by
  obtain ⟨hs, he, -⟩ := marchYear_spec z
  rcases lt_trichotomy (marchYear z) y with hlt | heq | hgt
  · have := yearStart_mono (by omega : marchYear z + 1 ≤ y)
    omega
  · exact heq
  · have := yearStart_mono (by omega : y + 1 ≤ marchYear z)
    omega

theorem daysInMonth_range (y m : ℤ) : 28 ≤ daysInMonth y m ∧ daysInMonth y m ≤ 31 := by
  unfold daysInMonth
  split_ifs <;> omega

/-- A March year has a day 365 where its February is a leap year's. -/
theorem yearStart_succ (y : ℤ) :
    yearStart (y + 1) = yearStart y + if isLeap (y + 1) then 366 else 365 := by
  unfold yearStart isLeap
  split_ifs with h
  · have := of_decide_eq_true h
    omega
  · have := of_decide_eq_false (Bool.eq_false_iff.mpr h)
    omega

/-- The months up to that of a date with a day of its month. -/
theorem monthIndex_dayNumber {y m d : ℤ} (hm : 1 ≤ m ∧ m ≤ 12) (hd : 1 ≤ d ∧ d ≤ daysInMonth y m) :
    monthIndex (dayNumber y m d) = 12 * y + m := by
  have hlen := yearStart_succ (if m ≤ 2 then y - 1 else y)
  have hyear : marchYear (dayNumber y m d + 719468) = if m ≤ 2 then y - 1 else y := by
    unfold daysInMonth at hd
    apply marchYear_eq <;> unfold dayNumber <;> simp only
    · split_ifs <;> omega
    · rw [hlen]
      split_ifs at hd ⊢ with h <;> first | omega | (rw [sub_add_cancel] at *; simp_all)
  have hday : marchDay (dayNumber y m d) = (153 * (if m ≤ 2 then m + 9 else m - 3) + 2) / 5 + d - 1 := by
    unfold marchDay
    rw [hyear]
    unfold dayNumber
    simp only
    omega
  have hmonth : marchMonth (dayNumber y m d) = if m ≤ 2 then m + 9 else m - 3 := by
    have hle := daysInMonth_range y m
    unfold marchMonth
    rw [hday]
    unfold daysInMonth at hd
    obtain ⟨h1, h12⟩ := hm
    interval_cases m <;> simp at hd ⊢ <;> omega
  rw [monthIndex_eq, hyear, hmonth]
  split_ifs <;> omega

theorem marchDay_split (n : ℤ) :
    0 ≤ marchDay n - (153 * marchMonth n + 2) / 5 ∧ marchDay n - (153 * marchMonth n + 2) / 5 ≤ 30 := by
  have := marchDay_range n
  unfold marchMonth
  omega

theorem civil_range (n : ℤ) :
    (1 ≤ (civil n).m ∧ (civil n).m ≤ 12) ∧ 1 ≤ (civil n).d ∧ (civil n).d ≤ 31 := by
  have hm := marchMonth_range n
  have hd := marchDay_split n
  unfold civil
  simp only
  split_ifs <;> omega

theorem dayNumber_civil (n : ℤ) : dayNumber (civil n).y (civil n).m (civil n).d = n := by
  have hm := marchMonth_range n
  have hd : marchDay n = n + 719468 - yearStart (marchYear (n + 719468)) := rfl
  unfold dayNumber civil
  simp only
  split_ifs <;> first | omega | skip
  all_goals ring_nf at *
  all_goals omega

theorem monthIndex_civil (n : ℤ) : monthIndex n = 12 * (civil n).y + (civil n).m := rfl

/-- A date of a later month is a later day. -/
theorem lt_of_monthIndex {a b : ℤ} (h : monthIndex a < monthIndex b) : a < b := by
  by_contra hle
  have := monthIndex_mono (not_lt.mp hle)
  omega

theorem monthIndex_clampAddMonths (anchor months : ℤ) :
    monthIndex (clampAddMonths anchor months) = monthIndex anchor + months := by
  obtain ⟨-, hd, -⟩ := civil_range anchor
  have hidx := Int.emod_add_mul_ediv ((civil anchor).y * 12 + ((civil anchor).m - 1) + months) 12
  have hmod := Int.emod_nonneg ((civil anchor).y * 12 + ((civil anchor).m - 1) + months)
    (show (12 : ℤ) ≠ 0 by decide)
  have hlt := Int.emod_lt_of_pos ((civil anchor).y * 12 + ((civil anchor).m - 1) + months)
    (show (0 : ℤ) < 12 by decide)
  unfold clampAddMonths
  simp only
  rw [monthIndex_dayNumber (by omega) ⟨le_min hd (by have := (daysInMonth_range
      (((civil anchor).y * 12 + ((civil anchor).m - 1) + months) / 12)
      (((civil anchor).y * 12 + ((civil anchor).m - 1) + months) % 12 + 1)).1; omega),
    min_le_right _ _⟩, monthIndex_civil]
  omega

/-- The second candidate lies in a later month than the date. -/
theorem lt_anchoredAfter {date anchor stepMonths : ℤ} (hstep : 0 < stepMonths) :
    date < anchoredAfter date anchor stepMonths := by
  unfold anchoredAfter
  simp only
  set k := max 0 (((((civil date).y - (civil anchor).y) * 12 + ((civil date).m - (civil anchor).m))) /
    stepMonths) with hk
  unfold anchoredFrom
  simp only
  split_ifs with hc
  · apply lt_of_monthIndex
    unfold anchoredFrom
    rw [monthIndex_clampAddMonths, monthIndex_civil, monthIndex_civil]
    have hfloor := Int.lt_ediv_add_one_mul_self
      (((civil date).y - (civil anchor).y) * 12 + ((civil date).m - (civil anchor).m)) hstep
    have hle : ((((civil date).y - (civil anchor).y) * 12 + ((civil date).m - (civil anchor).m)) /
        stepMonths + 1) * stepMonths ≤ (k + 1) * stepMonths :=
      Int.mul_le_mul_of_nonneg_right (by omega) hstep.le
    omega
  · exact not_le.mp hc

theorem lt_nextRecurrenceDate (date : ℤ) (frequency : Frequency) (interval anchor : ℤ) :
    date < nextRecurrenceDate date frequency interval anchor := by
  have hstep : 1 ≤ max 1 interval := le_max_left _ _
  unfold nextRecurrenceDate
  cases frequency <;> simp only
  case daily => omega
  case weekly => omega
  case biweekly => omega
  case semimonthly =>
    obtain ⟨hm, hd⟩ := civil_range date
    split_ifs with h15 h12
    · apply lt_of_monthIndex
      have := daysInMonth_range ((civil date).y + 1) 1
      rw [monthIndex_dayNumber (by decide) (by omega), monthIndex_civil]
      omega
    · apply lt_of_monthIndex
      have := daysInMonth_range (civil date).y ((civil date).m + 1)
      rw [monthIndex_dayNumber (by omega) (by omega), monthIndex_civil]
      omega
    · have := dayNumber_civil date
      unfold dayNumber at this ⊢
      simp only at this ⊢
      omega
  case monthly => exact lt_anchoredAfter (by omega)
  case quarterly => exact lt_anchoredAfter (by omega)
  case annually => exact lt_anchoredAfter (by omega)

end MyBooks
