import MyBooks.PaddedText
import Mathlib.Data.Rat.Cast.Order
import Mathlib.Algebra.Order.Field.Basic
import Mathlib.Algebra.Order.AbsoluteValue.Basic
import Mathlib.Tactic.FieldSimp
import Mathlib.Tactic.Linarith
import Mathlib.Tactic.Positivity
import Mathlib.Tactic.Ring

/-!
# Decimal texts

The text of a decimal and the number it says. The digits of `n` with `p` places behind the point say
`n / 10 ^ p` (`value_fixed`), and no text says that in fewer characters when the last place is not
zero (`length_fixed_le`).
-/

namespace MyBooks

structure DecimalText where
  negative : Bool
  whole : List Char
  frac : List Char
  areDigits : ∀ c ∈ whole ++ frac, c.isDigit = true
  ne_nil : whole ≠ []

namespace DecimalText

def text (x : DecimalText) : List Char :=
  (if x.negative then ['-'] else []) ++ x.whole ++ if x.frac = [] then [] else '.' :: x.frac

def value (x : DecimalText) : ℚ :=
  (if x.negative then -1 else 1) * (digitsValue (x.whole ++ x.frac) / 10 ^ x.frac.length)

theorem take_ne_nil {p n : ℕ} :
    (padded (p + 1) n).take ((padded (p + 1) n).length - p) ≠ [] := by
  have hlen : p + 1 ≤ (padded (p + 1) n).length := by
    rw [padded, padStart, List.length_append, List.length_replicate]
    omega
  rw [← List.length_pos_iff, List.length_take]
  omega

/-- The digits of `n` with a point before the last `p` of them. -/
def fixed (negative : Bool) (n p : ℕ) : DecimalText where
  negative := negative
  whole := (padded (p + 1) n).take ((padded (p + 1) n).length - p)
  frac := (padded (p + 1) n).drop ((padded (p + 1) n).length - p)
  areDigits := by
    rw [List.take_append_drop]
    exact digits_padded
  ne_nil := take_ne_nil

variable {negative : Bool} {n p : ℕ}

theorem length_padded_succ :
    (padded (p + 1) n).length = max (p + 1) (Nat.toDigits 10 n).length := by
  rw [padded, padStart, List.length_append, List.length_replicate]
  omega

theorem length_frac_fixed : (fixed negative n p).frac.length = p := by
  have := length_padded_succ (n := n) (p := p)
  rw [fixed, List.length_drop]
  omega

theorem whole_append_frac_fixed :
    (fixed negative n p).whole ++ (fixed negative n p).frac = padded (p + 1) n :=
  List.take_append_drop _ _

theorem value_fixed :
    (fixed negative n p).value = (if negative then -1 else 1) * (n / 10 ^ p) := by
  rw [value, whole_append_frac_fixed, digitsValue_padded, length_frac_fixed]
  rfl

theorem length_whole_fixed :
    (fixed negative n p).whole.length = max 1 ((Nat.toDigits 10 n).length - p) := by
  have := length_padded_succ (n := n) (p := p)
  rw [fixed, List.length_take]
  omega

theorem padded_one (n : ℕ) : padded 1 n = Nat.toDigits 10 n := by
  rw [padded, padStart, Nat.sub_eq_zero_of_le Nat.length_toDigits_pos]
  rfl

theorem text_fixed : (fixed negative n p).text = (if negative then ['-'] else []) ++
    if 0 < p then (padded (p + 1) n).take ((padded (p + 1) n).length - p) ++
      '.' :: (padded (p + 1) n).drop ((padded (p + 1) n).length - p)
    else Nat.toDigits 10 n := by
  have hlen : (fixed negative n p).frac.length = p := length_frac_fixed
  rw [text, List.append_assoc]
  congr 1
  rcases Nat.eq_zero_or_pos p with rfl | hp
  · rw [if_pos (List.length_eq_zero_iff.mp hlen), if_neg (lt_irrefl 0), List.append_nil]
    exact List.take_length.trans (padded_one n)
  · rw [if_neg (fun hnil => by rw [hnil] at hlen; exact absurd hlen hp.ne), if_pos hp]
    rfl

theorem getLast?_toDigits (n : ℕ) : (Nat.toDigits 10 n).getLast? = some (n % 10).digitChar := by
  rw [Nat.toDigits_eq_if (by decide)]
  split_ifs with h
  · rw [Nat.mod_eq_of_lt h]
    rfl
  · exact List.getLast?_concat

theorem getLast?_append_of_ne_nil {l l' : List Char} (h : l' ≠ []) :
    (l ++ l').getLast? = l'.getLast? := by
  rw [List.getLast?_append, List.getLast?_eq_some_getLast h, Option.some_or]

/-- A text with places ends with the last digit of the number. -/
theorem getLast?_text_fixed (hp : 0 < p) :
    (fixed negative n p).text.getLast? = some (n % 10).digitChar := by
  have hfrac : (fixed negative n p).frac ≠ [] := fun hnil => by
    have : (fixed negative n p).frac.length = p := length_frac_fixed
    rw [hnil] at this
    exact absurd this hp.ne
  have hlast : (fixed negative n p).frac.getLast? = some (n % 10).digitChar := by
    rw [← getLast?_append_of_ne_nil (l := (fixed negative n p).whole) hfrac,
      whole_append_frac_fixed, padded, padStart, getLast?_append_of_ne_nil Nat.toDigits_ne_nil,
      getLast?_toDigits]
  rw [text, if_neg hfrac, getLast?_append_of_ne_nil (List.cons_ne_nil _ _), ← hlast]
  exact getLast?_append_of_ne_nil (l := ['.']) hfrac

theorem dot_notMem_text_fixed : '.' ∉ (fixed negative n 0).text := by
  have hdigits : '.' ∉ Nat.toDigits 10 n := fun h => by
    have := Nat.isDigit_of_mem_toDigits (b := 10) (by decide) (by decide) h
    exact absurd this (by decide)
  rw [text_fixed, if_neg (lt_irrefl 0)]
  cases negative with
  | false => exact hdigits
  | true => simpa using hdigits

theorem length_text (x : DecimalText) : x.text.length =
    (if x.negative then 1 else 0) + x.whole.length +
      if x.frac = [] then 0 else 1 + x.frac.length := by
  rw [text, List.length_append, List.length_append]
  split_ifs <;> simp [Nat.add_comm]

theorem abs_value (x : DecimalText) :
    |x.value| = digitsValue (x.whole ++ x.frac) / 10 ^ x.frac.length := by
  rw [value, abs_mul, abs_of_nonneg (by positivity : (0 : ℚ) ≤ _ / _)]
  split_ifs <;> simp

/-- The digits of one number with two counts of places. -/
theorem digits_of_abs_eq {x y : DecimalText} (h : |x.value| = |y.value|) :
    digitsValue (x.whole ++ x.frac) * 10 ^ y.frac.length =
      digitsValue (y.whole ++ y.frac) * 10 ^ x.frac.length := by
  rw [abs_value, abs_value, div_eq_div_iff (by positivity) (by positivity)] at h
  exact_mod_cast h

theorem negative_of_value_neg {x : DecimalText} (h : x.value < 0) : x.negative = true := by
  by_contra hneg
  rw [value, if_neg hneg, one_mul] at h
  exact absurd h (not_lt.mpr (by positivity))

/-- No text says the same in fewer characters. -/
theorem length_fixed_le (hlast : p = 0 ∨ ¬10 ∣ n) (hneg : negative = true → n ≠ 0)
    {y : DecimalText} (h : y.value = (fixed negative n p).value) :
    (fixed negative n p).text.length ≤ y.text.length := by
  have hdigits := digits_of_abs_eq (x := fixed negative n p) (y := y) (by rw [h])
  rw [whole_append_frac_fixed, digitsValue_padded, length_frac_fixed] at hdigits
  have hplaces : p ≤ y.frac.length := by
    rcases hlast with rfl | hlast
    · exact Nat.zero_le _
    by_contra hless
    -- With a place less, `n` would be divisible by 10.
    obtain ⟨k, hk⟩ : ∃ k, p = y.frac.length + (k + 1) :=
      ⟨p - y.frac.length - 1, by omega⟩
    have hten : n * 10 ^ y.frac.length =
        10 * (digitsValue (y.whole ++ y.frac) * 10 ^ k) * 10 ^ y.frac.length := by
      rw [hdigits, hk]
      ring
    exact hlast ⟨_, Nat.eq_of_mul_eq_mul_right (by positivity) hten⟩
  have hwhole : (fixed negative n p).whole.length ≤ y.whole.length := by
    have hy : 0 < y.whole.length := List.length_pos_iff.mpr y.ne_nil
    have hlt := digitsValue_lt y.areDigits
    have hn : n < 10 ^ (y.whole.length + p) := by
      have hpow : n * 10 ^ y.frac.length < 10 ^ (y.whole.length + p) * 10 ^ y.frac.length := by
        rw [hdigits, ← pow_add]
        calc digitsValue (y.whole ++ y.frac) * 10 ^ p
            < 10 ^ (y.whole ++ y.frac).length * 10 ^ p :=
              Nat.mul_lt_mul_of_pos_right hlt (by positivity)
          _ = 10 ^ (y.whole.length + p + y.frac.length) := by
              rw [← pow_add, List.length_append]
              congr 1
              omega
      exact Nat.lt_of_mul_lt_mul_right hpow
    have hle := (Nat.length_toDigits_le_iff (by decide) (by omega)).mpr hn
    rw [length_whole_fixed]
    omega
  have hsign : negative = true → y.negative = true := fun hn => by
    refine negative_of_value_neg ?_
    have hpos : (0 : ℚ) < n := by exact_mod_cast Nat.pos_of_ne_zero (hneg hn)
    rw [h, value_fixed, if_pos hn]
    have : (0 : ℚ) < n / 10 ^ p := by positivity
    linarith
  rw [length_text, length_text, length_frac_fixed]
  have hfrac : (if (fixed negative n p).frac = [] then 0 else 1 + p) ≤
      if y.frac = [] then 0 else 1 + y.frac.length := by
    split_ifs with h1 h2 h2
    · exact le_rfl
    · exact Nat.zero_le _
    · rw [h2, List.length_nil, Nat.le_zero] at hplaces
      exact absurd (List.length_eq_zero_iff.mp (length_frac_fixed.trans hplaces)) h1
    · omega
  have hminus : (if (fixed negative n p).negative = true then 1 else 0) ≤
      if y.negative = true then 1 else 0 := by
    cases negative with
    | false => exact Nat.zero_le _
    | true => rw [hsign rfl]; exact le_rfl
  omega

end DecimalText

end MyBooks
