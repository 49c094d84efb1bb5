import MyBooks.Walk
import Mathlib.Tactic.Linarith

/-!
# Decimals of the tax estimator

Exact but for `dDiv`, which rounds at 12 places.
-/

namespace MyBooks

/-- Rounded half up at 12 places. -/
def dDiv (a b : Dec) : Dec := toPlaces 12 (a / b)

def dRoundRate (a : Dec) : Dec := toPlaces 6 a

def dFloorZero (a : Dec) : Dec := if a < 0 then 0 else a

theorem dFloorZero_eq (a : Dec) : dFloorZero a = max a 0 := by
  unfold dFloorZero
  split_ifs with h
  · exact (max_eq_right h.le).symm
  · exact (max_eq_left (not_lt.mp h)).symm

theorem dFloorZero_nonneg (a : Dec) : 0 ≤ dFloorZero a := by
  rw [dFloorZero_eq]
  exact le_max_right _ _

theorem le_dFloorZero (a : Dec) : a ≤ dFloorZero a := by
  rw [dFloorZero_eq]
  exact le_max_left _ _

theorem dFloorZero_of_nonneg {a : Dec} (h : 0 ≤ a) : dFloorZero a = a := by
  rw [dFloorZero_eq, max_eq_left h]

theorem dFloorZero_mono {a b : Dec} (h : a ≤ b) : dFloorZero a ≤ dFloorZero b := by
  rw [dFloorZero_eq, dFloorZero_eq]
  exact max_le_max_right 0 h

theorem dFloorZero_le {a b : Dec} (h : a ≤ b) (hb : 0 ≤ b) : dFloorZero a ≤ b := by
  rw [dFloorZero_eq]
  exact max_le h hb

/-- A percentage as a fraction, none of it where there is none. -/
def percentToFraction (pct : Option Dec) : Dec := pct.getD 0 / 100

end MyBooks
