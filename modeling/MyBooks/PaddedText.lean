import Mathlib.Data.List.Basic
import Mathlib.Algebra.Group.Nat.Defs
import Mathlib.Order.Basic

/-!
# Numbers of a fixed width

A number padded with zeros to a width it does not exceed. Such texts read back as their numbers and
are ordered as their numbers are, and behind texts of one length the order goes on with what follows
(`append_lt_append_iff`).
-/

namespace MyBooks

/-- Zeros in front of a text that is too short. -/
def padStart (w : ℕ) (t : List Char) : List Char := List.replicate (w - t.length) '0' ++ t

def padded (w n : ℕ) : List Char := padStart w (Nat.toDigits 10 n)

/-- The number that digits read as. -/
def digitsValue (l : List Char) : ℕ := Nat.ofDigitChars 10 l 0

theorem digitsValue_cons (c : Char) (l : List Char) :
    digitsValue (c :: l) = 10 ^ l.length * (c.toNat - '0'.toNat) + digitsValue l := by
  rw [digitsValue, Nat.ofDigitChars_cons, Nat.ofDigitChars_eq_ofDigitChars_zero, Nat.mul_zero,
    Nat.zero_add]
  rfl

theorem digit_range {c : Char} (h : c.isDigit = true) :
    '0'.toNat ≤ c.toNat ∧ c.toNat ≤ '9'.toNat := by
  rw [Char.isDigit, Bool.and_eq_true, decide_eq_true_eq, decide_eq_true_eq] at h
  exact h

theorem digitsValue_lt : ∀ {l : List Char}, (∀ c ∈ l, c.isDigit = true) →
    digitsValue l < 10 ^ l.length
  | [], _ => by decide
  | c :: l, h => by
    have hc := digit_range (h c List.mem_cons_self)
    have hl := digitsValue_lt fun d hd => h d (List.mem_cons_of_mem _ hd)
    rw [digitsValue_cons, List.length_cons, Nat.pow_succ]
    have h9 : c.toNat - '0'.toNat ≤ 9 := by
      have : '9'.toNat = '0'.toNat + 9 := rfl
      omega
    calc 10 ^ l.length * (c.toNat - '0'.toNat) + digitsValue l
        < 10 ^ l.length * 9 + 10 ^ l.length :=
          Nat.add_lt_add_of_le_of_lt (Nat.mul_le_mul_left _ h9) hl
      _ = 10 ^ l.length * 10 := by omega

theorem place_lt_iff {k a b v w : ℕ} (hv : v < k) (hw : w < k) :
    k * a + v < k * b + w ↔ a < b ∨ a = b ∧ v < w := by
  rcases Nat.lt_trichotomy a b with hab | rfl | hab
  · have := Nat.mul_le_mul_left k hab
    rw [Nat.succ_eq_add_one, Nat.mul_add] at this
    exact ⟨fun _ => .inl hab, fun _ => by omega⟩
  · simp
  · have := Nat.mul_le_mul_left k hab
    rw [Nat.succ_eq_add_one, Nat.mul_add] at this
    exact ⟨fun h => by omega, fun h => by omega⟩

theorem toNat_lt_iff {c d : Char} : c.toNat < d.toNat ↔ c < d := UInt32.lt_iff_toNat_lt.symm

/-- Digits of one length are ordered as their numbers. -/
theorem digits_lt_iff : ∀ {l l' : List Char}, l.length = l'.length →
    (∀ c ∈ l, c.isDigit = true) → (∀ c ∈ l', c.isDigit = true) →
      (l < l' ↔ digitsValue l < digitsValue l')
  | [], [], _, _, _ => by simp
  | c :: l, d :: l', hlength, hl, hl' => by
    rw [List.length_cons, List.length_cons, Nat.add_right_cancel_iff] at hlength
    have hc := digit_range (hl c List.mem_cons_self)
    have hd := digit_range (hl' d List.mem_cons_self)
    have hrest : ∀ e ∈ l, e.isDigit = true := fun e he => hl e (List.mem_cons_of_mem _ he)
    have hrest' : ∀ e ∈ l', e.isDigit = true := fun e he => hl' e (List.mem_cons_of_mem _ he)
    have hhead : c.toNat - '0'.toNat < d.toNat - '0'.toNat ↔ c < d := by
      rw [← toNat_lt_iff]
      omega
    have hsame : c.toNat - '0'.toNat = d.toNat - '0'.toNat ↔ c = d := by
      rw [← Char.toNat_inj]
      omega
    rw [List.cons_lt_cons_iff, digitsValue_cons, digitsValue_cons,
      digits_lt_iff hlength hrest hrest', hlength,
      place_lt_iff (hlength ▸ digitsValue_lt hrest) (digitsValue_lt hrest'), hhead, hsame]

/-- Texts go on in order behind beginnings of one length. -/
theorem append_lt_append_iff : ∀ {l l' t t' : List Char}, l.length = l'.length →
    (l ++ t < l' ++ t' ↔ l < l' ∨ l = l' ∧ t < t')
  | [], [], _, _, _ => by simp
  | c :: l, d :: l', t, t', h => by
    rw [List.cons_append, List.cons_append, List.cons_lt_cons_iff, List.cons_lt_cons_iff,
      append_lt_append_iff (by simpa using h), List.cons.injEq]
    tauto

section Padded

variable {w n m : ℕ}

theorem length_padded (hw : 0 < w) (h : n < 10 ^ w) : (padded w n).length = w := by
  have hle := (Nat.length_toDigits_le_iff (by decide) hw).mpr h
  rw [padded, padStart, List.length_append, List.length_replicate]
  omega

theorem digits_padded : ∀ c ∈ padded w n, c.isDigit = true := by
  intro c hc
  rcases List.mem_append.mp hc with hzero | hdigit
  · rw [List.eq_of_mem_replicate hzero]
    rfl
  · exact Nat.isDigit_of_mem_toDigits (by decide) (by decide) hdigit

@[simp] theorem digitsValue_padded : digitsValue (padded w n) = n := by
  rw [digitsValue, padded, padStart, Nat.ofDigitChars_append, Nat.ofDigitChars_replicate_zero,
    Nat.mul_zero, Nat.ofDigitChars_ten_toDigits]

theorem padded_lt_iff (hw : 0 < w) (hn : n < 10 ^ w) (hm : m < 10 ^ w) :
    padded w n < padded w m ↔ n < m := by
  rw [digits_lt_iff ((length_padded hw hn).trans (length_padded hw hm).symm) digits_padded
    digits_padded, digitsValue_padded, digitsValue_padded]

theorem padded_inj : padded w n = padded w m ↔ n = m :=
  ⟨fun h => by simpa using congrArg digitsValue h, congrArg _⟩

end Padded

end MyBooks
