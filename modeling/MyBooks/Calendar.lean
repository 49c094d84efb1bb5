import Mathlib.Order.MinMax
import Mathlib.Tactic.Ring

/-!
# Dates of day numbers

A day is its number from 1 January 1970, and `civil` gives its date in the Gregorian calendar. Years
are counted from March, so that a leap day ends one: then a day's month rises with its number
(`monthIndex_mono`), and of two days of one month the later has the larger day
(`monthIndex_lt_of_day_eq`).
-/

namespace MyBooks

structure CivilDate where
  y : ℤ
  m : ℤ
  d : ℤ
  deriving DecidableEq, Repr

/-- The first of March of year `y`, counted from that of the year 0. -/
def yearStart (y : ℤ) : ℤ := 365 * y + y / 4 - y / 100 + y / 400

/-- The March year of day `z`: by cycles of 400 years, centuries, cycles of 4 years and years. -/
def marchYear (z : ℤ) : ℤ :=
  let c := min (z % 146097 / 36524) 3
  let r := z % 146097 - 36524 * c
  400 * (z / 146097) + 100 * c + 4 * (r / 1461) + min (r % 1461 / 365) 3

/-- The first of March of the year 0 is day -719468. -/
def marchDay (n : ℤ) : ℤ := n + 719468 - yearStart (marchYear (n + 719468))

/-- The month counted from March. -/
def marchMonth (n : ℤ) : ℤ := (5 * marchDay n + 2) / 153

def civil (n : ℤ) : CivilDate where
  y := marchYear (n + 719468) + if marchMonth n < 10 then 0 else 1
  m := marchMonth n + if marchMonth n < 10 then 3 else -9
  d := marchDay n - (153 * marchMonth n + 2) / 5 + 1

example : civil 0 = ⟨1970, 1, 1⟩ ∧ civil 20558 = ⟨2026, 4, 15⟩ ∧ civil 19782 = ⟨2024, 2, 29⟩ := by
  decide

def isLeap (y : ℤ) : Bool := (y % 4 = 0 ∧ y % 100 ≠ 0) ∨ y % 400 = 0

def daysInYear (y : ℤ) : ℕ := if isLeap y then 366 else 365

/-- The months up to that of day `n`. -/
def monthIndex (n : ℤ) : ℤ := 12 * (civil n).y + (civil n).m

theorem yearStart_digits {q c k y : ℤ} (hc : 0 ≤ c ∧ c ≤ 3) (hk : 0 ≤ k ∧ k ≤ 24)
    (hy : 0 ≤ y ∧ y ≤ 3) :
    yearStart (400 * q + 100 * c + 4 * k + y) = 146097 * q + 36524 * c + 1461 * k + 365 * y := by
  unfold yearStart
  omega

theorem yearStart_succ_digits {q c k y : ℤ} (hc : 0 ≤ c ∧ c ≤ 3) (hk : 0 ≤ k ∧ k ≤ 24)
    (hy : 0 ≤ y ∧ y ≤ 3) :
    yearStart (400 * q + 100 * c + 4 * k + y + 1) =
      146097 * q + 36524 * c + 1461 * k + 365 * y +
        if y = 3 ∧ ¬(k = 24 ∧ c ≠ 3) then 366 else 365 := by
  unfold yearStart
  split_ifs <;> omega

theorem yearStart_mono {y y' : ℤ} (h : y ≤ y') : yearStart y ≤ yearStart y' := by
  unfold yearStart
  omega

/-- A day lies in its March year. -/
theorem marchYear_spec (z : ℤ) :
    yearStart (marchYear z) ≤ z ∧ z < yearStart (marchYear z + 1) ∧
      z ≤ yearStart (marchYear z) + 365 := by
  unfold marchYear
  simp only
  rw [yearStart_digits (by omega) (by omega) (by omega),
    yearStart_succ_digits (by omega) (by omega) (by omega)]
  split_ifs <;> omega

theorem marchYear_mono {a b : ℤ} (h : a ≤ b) : marchYear a ≤ marchYear b := by
  by_contra hlt
  have hstart := yearStart_mono (by omega : marchYear b + 1 ≤ marchYear a)
  have ha := (marchYear_spec a).1
  have hb := (marchYear_spec b).2.1
  omega

theorem marchDay_range (n : ℤ) : 0 ≤ marchDay n ∧ marchDay n ≤ 365 := by
  have := marchYear_spec (n + 719468)
  unfold marchDay
  omega

theorem marchMonth_range (n : ℤ) : 0 ≤ marchMonth n ∧ marchMonth n ≤ 11 := by
  have := marchDay_range n
  unfold marchMonth
  omega

theorem monthIndex_eq (n : ℤ) :
    monthIndex n = 12 * marchYear (n + 719468) + marchMonth n + 3 := by
  simp only [monthIndex, civil]
  split_ifs <;> ring

/-- Of two days of one March year the later has the larger number in it. -/
theorem marchDay_lt {a b : ℤ} (h : a < b)
    (hy : marchYear (a + 719468) = marchYear (b + 719468)) : marchDay a < marchDay b := by
  unfold marchDay
  rw [hy]
  omega

theorem monthIndex_mono {a b : ℤ} (h : a ≤ b) : monthIndex a ≤ monthIndex b := by
  rcases h.eq_or_lt with rfl | h
  · exact le_rfl
  have hy := marchYear_mono (by omega : a + 719468 ≤ b + 719468)
  have ha := marchMonth_range a
  have hb := marchMonth_range b
  rw [monthIndex_eq, monthIndex_eq]
  rcases hy.eq_or_lt with hy | hy
  · have hday := marchDay_lt h hy
    have hmonth : marchMonth a ≤ marchMonth b := by
      unfold marchMonth
      omega
    omega
  · omega

/-- Two days with one day of the month lie in different months. -/
theorem monthIndex_lt_of_day_eq {a b : ℤ} (h : a < b) (hd : (civil a).d = (civil b).d) :
    monthIndex a < monthIndex b := by
  refine lt_of_le_of_ne (monthIndex_mono h.le) fun heq => ?_
  have hy := marchYear_mono (by omega : a + 719468 ≤ b + 719468)
  have ha := marchMonth_range a
  have hb := marchMonth_range b
  rw [monthIndex_eq, monthIndex_eq] at heq
  have hday := marchDay_lt h (by omega)
  simp only [civil] at hd
  have hmonth : marchMonth a = marchMonth b := by omega
  rw [hmonth] at hd
  omega

end MyBooks
