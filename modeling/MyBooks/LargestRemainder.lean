import Mathlib.Data.List.Range
import Mathlib.Data.List.Perm.Subperm
import Mathlib.Data.List.Nodup
import Mathlib.Algebra.Order.Floor.Ring
import Mathlib.Algebra.BigOperators.Group.List.Lemmas
import Mathlib.Algebra.BigOperators.Ring.List
import Mathlib.Algebra.Order.BigOperators.Group.List
import Mathlib.Tactic.Linarith
import Mathlib.Tactic.Push

/-!
# Largest remainders

In a list without repetitions, ranked by a strict total order, `k` entries have a rank below `k`
(`countP_rankIn_lt`). Shares rounded down leave a rest, which is at most the number of shares that
have a remainder when the total is within a unit of the sum (`rest_le_countP`).
-/

namespace MyBooks

section Rank

variable {α : Type*} {before : α → α → Prop} [DecidableRel before] {l : List α} {a b : α}

/-- How many entries of `l` come before `b`. -/
def rankIn (before : α → α → Prop) [DecidableRel before] (l : List α) (b : α) : ℕ :=
  l.countP (before · b)

/-- More entries meet the weaker of two conditions, when one of them does not meet the other. -/
theorem countP_lt_countP {p q : α → Bool} (h : ∀ c ∈ l, p c → q c) (ha : a ∈ l) (hp : ¬p a)
    (hq : q a) : l.countP p < l.countP q := by
  classical
  have hperm := List.perm_cons_erase ha
  rw [hperm.countP_eq, hperm.countP_eq, List.countP_cons_of_neg hp, List.countP_cons_of_pos hq,
    Nat.lt_succ_iff]
  exact List.countP_mono_left fun c hc => h c (List.mem_of_mem_erase hc)

theorem rankIn_lt_rankIn (irrefl : ∀ a, ¬before a a)
    (trans : ∀ a b c, before a b → before b c → before a c) (ha : a ∈ l) (hab : before a b) :
    rankIn before l a < rankIn before l b :=
  countP_lt_countP (fun c _ hc => by simpa using trans c a b (by simpa using hc) hab) ha
    (by simpa using irrefl a) (by simpa using hab)

theorem rankIn_lt_length (irrefl : ∀ a, ¬before a a) (ha : a ∈ l) :
    rankIn before l a < l.length := by
  refine lt_of_le_of_ne List.countP_le_length fun h => irrefl a ?_
  simpa using List.countP_eq_length.mp h a ha

theorem countP_lt_range (k n : ℕ) : (List.range n).countP (· < k) = min k n := by
  induction n with
  | zero => simp
  | succ n ih =>
    rw [List.range_succ, List.countP_append, ih, List.countP_singleton]
    by_cases h : n < k
    · simp only [h, decide_true, if_true]
      omega
    · simp only [h, decide_false]
      simp only [Bool.false_eq_true, if_false]
      omega

/-- The ranks of a list without repetitions are the numbers below its length. -/
theorem map_rankIn_perm (irrefl : ∀ a, ¬before a a)
    (trans : ∀ a b c, before a b → before b c → before a c)
    (total : ∀ a ∈ l, ∀ b ∈ l, a ≠ b → before a b ∨ before b a) (hl : l.Nodup) :
    (l.map (rankIn before l)).Perm (List.range l.length) := by
  have hnd : (l.map (rankIn before l)).Nodup := by
    refine hl.map_on fun a ha b hb heq => ?_
    by_contra hne
    rcases total a ha b hb hne with h | h
    · have := rankIn_lt_rankIn irrefl trans ha h
      omega
    · have := rankIn_lt_rankIn irrefl trans hb h
      omega
  have hsub : l.map (rankIn before l) ⊆ List.range l.length := by
    intro r hr
    obtain ⟨a, ha, rfl⟩ := List.mem_map.mp hr
    exact List.mem_range.mpr (rankIn_lt_length irrefl ha)
  exact (hnd.subperm hsub).perm_of_length_le (by simp)

theorem countP_rankIn_lt (irrefl : ∀ a, ¬before a a)
    (trans : ∀ a b c, before a b → before b c → before a c)
    (total : ∀ a ∈ l, ∀ b ∈ l, a ≠ b → before a b ∨ before b a) (hl : l.Nodup) (k : ℕ) :
    l.countP (fun b => rankIn before l b < k) = min k l.length := by
  have h := (map_rankIn_perm irrefl trans total hl).countP_eq (· < k)
  rw [List.countP_map] at h
  rw [← countP_lt_range, ← h]
  rfl

end Rank

section Rest

variable {K : Type*} [Field K] [LinearOrder K] [IsStrictOrderedRing K] [FloorRing K]

/-- Remainders come to less than there are of them, unless there are none. -/
theorem sum_fract_le_countP : ∀ xs : List K,
    (xs.map Int.fract).sum ≤ ((xs.map Int.fract).countP (fun r => decide (0 < r)) : K)
  | [] => by simp
  | x :: xs => by
    have ih := sum_fract_le_countP xs
    have h0 := Int.fract_nonneg x
    have h1 := Int.fract_lt_one x
    simp only [List.map_cons, List.sum_cons, List.countP_cons]
    split_ifs with h
    · push_cast
      linarith
    · have : Int.fract x ≤ 0 := by simpa using h
      push_cast
      linarith

theorem sum_fract_nonneg (xs : List K) : 0 ≤ (xs.map Int.fract).sum :=
  List.sum_nonneg fun r hr => by
    obtain ⟨x, -, rfl⟩ := List.mem_map.mp hr
    exact Int.fract_nonneg x

/-- Rounding down leaves the remainders. -/
theorem sum_sub_sum_floor (xs : List K) :
    xs.sum - (xs.map fun x => ((⌊x⌋ : ℤ) : K)).sum = (xs.map Int.fract).sum := by
  have h : xs.sum = (xs.map fun x => ((⌊x⌋ : ℤ) : K)).sum + (xs.map Int.fract).sum := by
    rw [← List.sum_map_add]
    conv_lhs => rw [← List.map_id' xs]
    exact congrArg List.sum (List.map_congr_left fun x _ => (Int.floor_add_fract x).symm)
  linarith

omit [IsStrictOrderedRing K] in
theorem floor_sum_cast : ∀ xs : List K,
    (xs.map fun x => ((⌊x⌋ : ℤ) : K)).sum = (((xs.map fun x => ⌊x⌋).sum : ℤ) : K)
  | [] => by simp
  | x :: xs => by simp [floor_sum_cast xs]

/-- A whole total within a unit of the sum leaves a whole number of units: no more than there are
entries with a remainder. -/
theorem rest_le_countP {xs : List K} {total : ℤ} (hlo : xs.sum - 1 < total)
    (hhi : (total : K) < xs.sum + 1) :
    0 ≤ total - (xs.map fun x => ⌊x⌋).sum ∧
      total - (xs.map fun x => ⌊x⌋).sum ≤
        ((xs.map Int.fract).countP (fun r => decide (0 < r)) : ℤ) := by
  have hsum := sum_sub_sum_floor xs
  rw [floor_sum_cast] at hsum
  have h0 := sum_fract_nonneg xs
  have h1 := sum_fract_le_countP xs
  constructor
  · have : ((-1 : ℤ) : K) < ((total - (xs.map fun x => ⌊x⌋).sum : ℤ) : K) := by
      rw [Int.cast_sub, Int.cast_neg, Int.cast_one]
      linarith
    have := Int.cast_lt.mp this
    omega
  · have : ((total - (xs.map fun x => ⌊x⌋).sum : ℤ) : K) <
        (((xs.map Int.fract).countP (fun r => decide (0 < r)) + 1 : ℤ) : K) := by
      rw [Int.cast_sub, Int.cast_add, Int.cast_natCast, Int.cast_one]
      linarith
    have := Int.cast_lt.mp this
    omega

end Rest

end MyBooks
