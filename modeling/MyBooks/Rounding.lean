import Mathlib.Data.Rat.Floor
import Mathlib.Algebra.Order.Field.Power
import Mathlib.Data.Int.Log
import Mathlib.Tactic.Linarith
import Mathlib.Tactic.Ring
import Mathlib.Tactic.FieldSimp
import Mathlib.Tactic.Positivity
import Mathlib.Tactic.Push

/-!
# Decimal rounding, half away from zero

`toPlaces p` rounds to `p` decimal places and `toSig d` to `d` significant digits, both half away
from zero. A number with `p` places is unchanged by `toPlaces p` (`toPlaces_of_places`), and
rounding to many significant digits before rounding to few places gives what rounding once gives,
as long as the number is a fraction of bounded denominator and bounded size (`toPlaces_toSig`).
-/

namespace MyBooks

/-- The integer nearest to `x`, halves away from zero. -/
def roundHalfUp (x : ℚ) : ℤ := if 0 ≤ x then ⌊x + 1 / 2⌋ else -⌊-x + 1 / 2⌋

/-- `x` to `p` decimal places, half away from zero. -/
def toPlaces (p : ℕ) (x : ℚ) : ℚ := roundHalfUp (x * 10 ^ p) / 10 ^ p

/-- `x` to `d` significant digits, half away from zero. -/
def toSig (d : ℕ) (x : ℚ) : ℚ :=
  roundHalfUp (x * 10 ^ ((d : ℤ) - 1 - Int.log 10 |x|)) / 10 ^ ((d : ℤ) - 1 - Int.log 10 |x|)

/-- `x` is a decimal with at most `p` places. -/
def Places (p : ℕ) (x : ℚ) : Prop := ∃ n : ℤ, x * 10 ^ p = n

section RoundHalfUp

theorem roundHalfUp_intCast (n : ℤ) : roundHalfUp n = n := by
  have h : ∀ m : ℤ, ⌊(m : ℚ) + 1 / 2⌋ = m := fun m => by
    rw [Int.floor_eq_iff]
    constructor <;> linarith
  unfold roundHalfUp
  split_ifs
  · exact h n
  · rw [← Int.cast_neg, h, neg_neg]

theorem roundHalfUp_zero : roundHalfUp 0 = 0 := by
  simpa using roundHalfUp_intCast 0

theorem roundHalfUp_neg (x : ℚ) : roundHalfUp (-x) = -roundHalfUp x := by
  rcases lt_trichotomy x 0 with h | rfl | h
  · rw [roundHalfUp, roundHalfUp, if_pos (by linarith), if_neg (by linarith), neg_neg]
  · simp [roundHalfUp_zero]
  · rw [roundHalfUp, roundHalfUp, if_neg (by linarith), if_pos (by linarith), neg_neg]

theorem roundHalfUp_le (x : ℚ) : (roundHalfUp x : ℚ) ≤ x + 1 / 2 := by
  unfold roundHalfUp
  split_ifs with h
  · exact Int.floor_le _
  · push_cast
    have := Int.lt_floor_add_one (-x + 1 / 2)
    linarith

theorem le_roundHalfUp (x : ℚ) : x - 1 / 2 ≤ roundHalfUp x := by
  have h := roundHalfUp_le (-x)
  rw [roundHalfUp_neg] at h
  push_cast at h
  linarith

theorem roundHalfUp_nonneg {x : ℚ} (h : 0 ≤ x) : 0 ≤ roundHalfUp x := by
  rw [roundHalfUp, if_pos h]
  exact Int.floor_nonneg.mpr (by linarith)

theorem roundHalfUp_mono {x y : ℚ} (h : x ≤ y) : roundHalfUp x ≤ roundHalfUp y := by
  rcases le_or_gt 0 x with hx | hx
  · rw [roundHalfUp, roundHalfUp, if_pos hx, if_pos (hx.trans h)]
    exact Int.floor_mono (by linarith)
  · rcases le_or_gt 0 y with hy | hy
    · have := roundHalfUp_nonneg hy
      have h' := roundHalfUp_nonneg (x := -x) (by linarith)
      rw [roundHalfUp_neg] at h'
      omega
    · rw [roundHalfUp, roundHalfUp, if_neg (by linarith), if_neg (by linarith)]
      exact neg_le_neg (Int.floor_mono (by linarith))

/-- Between two halves the nearest integer is unique. -/
theorem roundHalfUp_eq {x : ℚ} {n : ℤ} (h1 : (n : ℚ) - 1 / 2 < x) (h2 : x < n + 1 / 2) :
    roundHalfUp x = n := by
  have hl : (roundHalfUp x : ℚ) < n + 1 := by linarith [roundHalfUp_le x]
  have hr : (n : ℚ) - 1 < roundHalfUp x := by linarith [le_roundHalfUp x]
  have hl' : roundHalfUp x < n + 1 := by exact_mod_cast hl
  have hr' : n - 1 < roundHalfUp x := by exact_mod_cast hr
  omega

theorem roundHalfUp_eq_zero {x : ℚ} : roundHalfUp x = 0 ↔ |x| < 1 / 2 := by
  constructor
  · intro h
    rw [abs_lt]
    rcases le_or_gt 0 x with hx | hx
    · rw [roundHalfUp, if_pos hx, Int.floor_eq_iff] at h
      constructor <;> push_cast at h <;> linarith
    · rw [roundHalfUp, if_neg (by linarith), neg_eq_zero, Int.floor_eq_iff] at h
      constructor <;> push_cast at h <;> linarith
  · intro h
    rw [abs_lt] at h
    refine roundHalfUp_eq ?_ ?_ <;> push_cast <;> linarith

end RoundHalfUp

section Places

variable {p : ℕ} {x y : ℚ}

theorem Places.intCast (n : ℤ) : Places p n := ⟨n * 10 ^ p, by push_cast; rfl⟩

@[simp] theorem Places.zero : Places p 0 := ⟨0, by simp⟩

theorem Places.add (hx : Places p x) (hy : Places p y) : Places p (x + y) := by
  obtain ⟨m, hm⟩ := hx
  obtain ⟨n, hn⟩ := hy
  exact ⟨m + n, by push_cast; rw [add_mul, hm, hn]⟩

theorem Places.neg (hx : Places p x) : Places p (-x) := by
  obtain ⟨m, hm⟩ := hx
  exact ⟨-m, by push_cast; rw [neg_mul, hm]⟩

theorem Places.sub (hx : Places p x) (hy : Places p y) : Places p (x - y) := by
  rw [sub_eq_add_neg]
  exact hx.add hy.neg

theorem Places.max (hx : Places p x) (hy : Places p y) : Places p (max x y) := by
  rcases max_choice x y with h | h <;> rw [h] <;> assumption

theorem Places.min (hx : Places p x) (hy : Places p y) : Places p (min x y) := by
  rcases min_choice x y with h | h <;> rw [h] <;> assumption

theorem Places.sum {l : List ℚ} (h : ∀ x ∈ l, Places p x) : Places p l.sum := by
  induction l with
  | nil => simp
  | cons a l ih =>
    rw [List.sum_cons]
    exact (h a (by simp)).add (ih fun x hx => h x (by simp [hx]))

theorem Places.mono {q : ℕ} (hpq : p ≤ q) (hx : Places p x) : Places q x := by
  obtain ⟨m, hm⟩ := hx
  refine ⟨m * 10 ^ (q - p), ?_⟩
  push_cast
  rw [← hm, mul_assoc, ← pow_add, Nat.add_sub_cancel' hpq]

theorem places_toPlaces (p : ℕ) (x : ℚ) : Places p (toPlaces p x) :=
  ⟨roundHalfUp (x * 10 ^ p), by rw [toPlaces, div_mul_cancel₀ _ (by positivity)]⟩

/-- A decimal with `p` places is its own rounding. -/
theorem toPlaces_of_places (hx : Places p x) : toPlaces p x = x := by
  obtain ⟨m, hm⟩ := hx
  rw [toPlaces, hm, roundHalfUp_intCast, ← hm, mul_div_cancel_right₀ _ (by positivity)]

@[simp] theorem toPlaces_zero : toPlaces p 0 = 0 := toPlaces_of_places Places.zero

theorem toPlaces_eq_zero : toPlaces p x = 0 ↔ |x| * 10 ^ p < 1 / 2 := by
  have hpow : (0 : ℚ) < 10 ^ p := by positivity
  rw [toPlaces, div_eq_zero_iff, or_iff_left hpow.ne', Int.cast_eq_zero, roundHalfUp_eq_zero, abs_mul,
    abs_of_pos hpow]

theorem toPlaces_mono (h : x ≤ y) : toPlaces p x ≤ toPlaces p y := by
  unfold toPlaces
  gcongr
  exact roundHalfUp_mono (by gcongr)

theorem toPlaces_nonneg (h : 0 ≤ x) : 0 ≤ toPlaces p x := by
  simpa using toPlaces_mono (p := p) h

end Places

section Significant

theorem toSig_zero (d : ℕ) : toSig d 0 = 0 := by
  simp [toSig, roundHalfUp_zero]

theorem toSig_nonneg (d : ℕ) {x : ℚ} (h : 0 ≤ x) : 0 ≤ toSig d x := by
  have hpow : (0 : ℚ) ≤ 10 ^ ((d : ℤ) - 1 - Int.log 10 |x|) := by positivity
  exact div_nonneg (by exact_mod_cast roundHalfUp_nonneg (mul_nonneg h hpow)) hpow

/-- Rounding to `d` significant digits moves a number by half a unit in its last digit at most. -/
theorem abs_toSig_sub_le (d : ℕ) {x : ℚ} (hx : x ≠ 0) :
    |toSig d x - x| ≤ 1 / 2 * (|x| / 10 ^ ((d : ℤ) - 1)) := by
  set k : ℤ := (d : ℤ) - 1 - Int.log 10 |x| with hk
  have hpos : (0 : ℚ) < 10 ^ k := by positivity
  have hround : |(roundHalfUp (x * 10 ^ k) : ℚ) - x * 10 ^ k| ≤ 1 / 2 := by
    rw [abs_le]
    constructor
    · linarith [le_roundHalfUp (x * 10 ^ k)]
    · linarith [roundHalfUp_le (x * 10 ^ k)]
  have hlog : (10 : ℚ) ^ Int.log 10 |x| ≤ |x| := by
    have := Int.zpow_log_le_self (b := 10) (r := |x|) (by norm_num) (abs_pos.mpr hx)
    exact_mod_cast this
  have hsplit : toSig d x - x = ((roundHalfUp (x * 10 ^ k) : ℚ) - x * 10 ^ k) / 10 ^ k := by
    rw [toSig, ← hk]
    field_simp
  have hunit : (1 : ℚ) / 10 ^ k ≤ |x| / 10 ^ ((d : ℤ) - 1) := by
    rw [hk, zpow_sub₀ (by norm_num), one_div_div]
    gcongr
  calc |toSig d x - x|
      = |(roundHalfUp (x * 10 ^ k) : ℚ) - x * 10 ^ k| / 10 ^ k := by
        rw [hsplit, abs_div, abs_of_pos hpos]
    _ ≤ 1 / 2 / 10 ^ k := by gcongr
    _ = 1 / 2 * (1 / 10 ^ k) := by ring
    _ ≤ 1 / 2 * (|x| / 10 ^ ((d : ℤ) - 1)) := by gcongr

/-- A number of few places and moderate size has its own significant digits. -/
theorem toSig_of_places {d p : ℕ} {x : ℚ} (hx : Places p x) (hb : |x| * 10 ^ p < 10 ^ d) :
    toSig d x = x := by
  rcases eq_or_ne x 0 with rfl | hx0
  · exact toSig_zero d
  set k : ℤ := (d : ℤ) - 1 - Int.log 10 |x| with hk
  obtain ⟨n, hn⟩ := hx
  have hlog : (10 : ℚ) ^ Int.log 10 |x| ≤ |x| := by
    have := Int.zpow_log_le_self (b := 10) (r := |x|) (by norm_num) (abs_pos.mpr hx0)
    exact_mod_cast this
  have hpk : (p : ℤ) ≤ k := by
    have h1 : (10 : ℚ) ^ (Int.log 10 |x| + p) < 10 ^ (d : ℤ) := by
      rw [zpow_add₀ (by norm_num), zpow_natCast, zpow_natCast]
      exact lt_of_le_of_lt (by gcongr) hb
    have := (zpow_lt_zpow_iff_right₀ (by norm_num : (1 : ℚ) < 10)).mp h1
    omega
  obtain ⟨j, hj⟩ := Int.eq_ofNat_of_zero_le (sub_nonneg.mpr hpk)
  have hint : x * 10 ^ k = ((n * 10 ^ j : ℤ) : ℚ) := by
    have hkj : k = (p : ℤ) + j := by omega
    rw [hkj, zpow_add₀ (by norm_num), zpow_natCast, zpow_natCast, ← mul_assoc, hn]
    push_cast
    rfl
  rw [toSig, ← hk, hint, roundHalfUp_intCast, ← hint, mul_div_cancel_right₀ _ (by positivity)]

theorem add_one_le_of_cast_lt {a b : ℤ} (h : (a : ℚ) < b) : (a : ℚ) + 1 ≤ b := by
  exact_mod_cast Int.add_one_le_iff.mpr (Int.cast_lt.mp h)

/-- Rounding twice is rounding once, for fractions of denominator `D` in units of the last place:
such a fraction is no closer to a half than `1 / (2 D)`, unless it is one, and then its significant
digits are exact. -/
theorem toPlaces_toSig {d p D : ℕ} {x : ℚ} (hD : 0 < D) (hx : ∃ n : ℤ, x * 10 ^ p * D = n)
    (hb : |x| * 10 ^ p * D < 10 ^ ((d : ℤ) - 1)) (htie : |x| * 10 ^ (p + 1) < 10 ^ d) :
    toPlaces p (toSig d x) = toPlaces p x := by
  rcases eq_or_ne x 0 with rfl | hx0
  · rw [toSig_zero]
  obtain ⟨n, hn⟩ := hx
  have hDq : (0 : ℚ) < D := by exact_mod_cast hD
  set y : ℚ := x * 10 ^ p with hy
  set m : ℤ := roundHalfUp y with hm
  have hlo := le_roundHalfUp y
  have hhi := roundHalfUp_le y
  rcases eq_or_ne (2 * y) (2 * m - 1) with hl | hl
  · have hpl : Places (p + 1) x := ⟨10 * m - 5, by push_cast; rw [pow_succ, ← mul_assoc]; linarith⟩
    rw [toSig_of_places hpl htie]
  rcases eq_or_ne (2 * y) (2 * m + 1) with hr | hr
  · have hpl : Places (p + 1) x := ⟨10 * m + 5, by push_cast; rw [pow_succ, ← mul_assoc]; linarith⟩
    rw [toSig_of_places hpl htie]
  -- `2 D y` is an integer other than `D (2m ± 1)`, so it is one away from both at least.
  have hgap1 : (2 * m - 1 : ℚ) * D + 1 ≤ 2 * y * D := by
    have hlt : (2 * m - 1 : ℚ) < 2 * y := lt_of_le_of_ne (by linarith) (Ne.symm hl)
    have hint := add_one_le_of_cast_lt (a := (2 * m - 1) * D) (b := 2 * n) (by
      push_cast
      nlinarith)
    push_cast at hint
    linarith
  have hgap2 : 2 * y * D + 1 ≤ (2 * m + 1 : ℚ) * D := by
    have hlt : 2 * y < (2 * m + 1 : ℚ) := lt_of_le_of_ne (by linarith) hr
    have hint := add_one_le_of_cast_lt (a := 2 * n) (b := (2 * m + 1) * D) (by
      push_cast
      nlinarith)
    push_cast at hint
    linarith
  have herr : |toSig d x - x| * 10 ^ p * (2 * D) < 1 := by
    have hpow : (0 : ℚ) < 10 ^ ((d : ℤ) - 1) := by positivity
    have h1 := abs_toSig_sub_le d hx0
    have h2 : |x| * 10 ^ p * D / 10 ^ ((d : ℤ) - 1) < 1 := by rwa [div_lt_one hpow]
    calc |toSig d x - x| * 10 ^ p * (2 * D)
        ≤ 1 / 2 * (|x| / 10 ^ ((d : ℤ) - 1)) * 10 ^ p * (2 * D) := by gcongr
      _ = |x| * 10 ^ p * D / 10 ^ ((d : ℤ) - 1) := by field_simp
      _ < 1 := h2
  have hz : |toSig d x * 10 ^ p - y| * (2 * D) < 1 := by
    rw [hy, ← sub_mul, abs_mul, abs_of_pos (by positivity : (0 : ℚ) < 10 ^ p)]
    exact herr
  have hz1 : (y - toSig d x * 10 ^ p) * (2 * D) < 1 := by
    refine lt_of_le_of_lt ?_ hz
    gcongr
    rw [abs_sub_comm]
    exact le_abs_self _
  have hz2 : (toSig d x * 10 ^ p - y) * (2 * D) < 1 := by
    refine lt_of_le_of_lt ?_ hz
    gcongr
    exact le_abs_self _
  have hround : roundHalfUp (toSig d x * 10 ^ p) = m := by
    refine roundHalfUp_eq ?_ ?_
    · have : (2 * m - 1 : ℚ) * D < 2 * (toSig d x * 10 ^ p) * D := by linarith
      have := lt_of_mul_lt_mul_right this hDq.le
      linarith
    · have : 2 * (toSig d x * 10 ^ p) * D < (2 * m + 1 : ℚ) * D := by linarith
      have := lt_of_mul_lt_mul_right this hDq.le
      linarith
  rw [toPlaces, toPlaces, hround]

/-- The 40 digits the source divides with do not change a rounded quotient of column values. -/
theorem toPlaces_quotient {p : ℕ} {a b : ℚ} (ha : Places (p + 4) a) (hb : Places 4 b) (hb0 : b ≠ 0)
    (hsize : |a| * 10 ^ (p + 4) < 10 ^ 39) : toPlaces p (toSig 40 (a / b)) = toPlaces p (a / b) := by
  obtain ⟨m, hm⟩ := ha
  obtain ⟨n, hn⟩ := hb
  have hn0 : n ≠ 0 := by
    rintro rfl
    simp [hb0] at hn
  have hn1 : (1 : ℚ) ≤ |(n : ℚ)| := by exact_mod_cast Int.one_le_abs hn0
  have hx : a / b * n = a * 10 ^ 4 := by rw [← hn]; field_simp
  have hxn : |a / b| * |(n : ℚ)| = |a| * 10 ^ 4 := by rw [← abs_mul, hx, abs_mul]; norm_num
  have hcast : ((n.natAbs : ℕ) : ℚ) = |(n : ℚ)| := by rw [Nat.cast_natAbs, Int.cast_abs]
  refine toPlaces_toSig (D := n.natAbs) (Int.natAbs_pos.mpr hn0) ⟨n.sign * m, ?_⟩ ?_ ?_
  · have hsign : |(n : ℚ)| = n.sign * n := by
      rw [← Int.cast_abs, ← Int.sign_mul_self_eq_abs]
      push_cast
      ring
    rw [hcast, hsign]
    push_cast
    calc a / b * 10 ^ p * (n.sign * n) = n.sign * (a / b * n * 10 ^ p) := by ring
      _ = n.sign * (a * 10 ^ (p + 4)) := by rw [hx]; ring
      _ = n.sign * m := by rw [hm]
  · rw [hcast]
    calc |a / b| * 10 ^ p * |(n : ℚ)| = |a / b| * |(n : ℚ)| * 10 ^ p := by ring
      _ = |a| * 10 ^ (p + 4) := by rw [hxn]; ring
      _ < 10 ^ 39 := hsize
      _ = 10 ^ (((40 : ℕ) : ℤ) - 1) := by norm_num
  · have hle : |a / b| ≤ |a| * 10 ^ 4 := hxn ▸ le_mul_of_one_le_right (abs_nonneg _) hn1
    calc |a / b| * 10 ^ (p + 1) = |a / b| * (10 ^ p * 10) := by rw [pow_succ]
      _ ≤ |a| * 10 ^ 4 * (10 ^ p * 10) := by gcongr
      _ = |a| * 10 ^ (p + 4) * 10 := by ring
      _ < 10 ^ 39 * 10 := by linarith
      _ = 10 ^ 40 := by norm_num

end Significant

end MyBooks
