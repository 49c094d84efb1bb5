import MyBooks.Penalty
import MyBooks.Tally
import Mathlib.Algebra.BigOperators.Intervals
import Mathlib.Algebra.BigOperators.Ring.Finset
import Mathlib.Order.Interval.Finset.SuccPred
import Mathlib.Data.Int.Interval
import Mathlib.Data.Int.SuccPred
import Mathlib.Data.Int.ConditionallyCompleteOrder
import Mathlib.Tactic.Linarith

/-!
# The penalty as a sum over days

Where what a method charges a piece for is a sum over its days, an installment's penalty is the sum
over the days of the balance on that day at that day's weight (`cost_eq_sum`). The weight may depend on
where the piece began. Daily interest is such a sum always; the monthly methods are where all dates
fall on one day of the month.
-/

namespace MyBooks

open Finset

section Sums

theorem sum_Ico_eq_range (f : ℤ → Dec) (a b : ℤ) :
    ∑ d ∈ Ico a b, f d = ∑ k ∈ range (b - a).toNat, f (a + k) := by
  rw [Int.Ico_eq_finset_map, sum_map]
  simp

/-- The steps of `F` over some days come to its rise. -/
theorem sum_Ico_steps (F : ℤ → Dec) {a b : ℤ} (h : a ≤ b) :
    ∑ d ∈ Ico a b, (F (d + 1) - F d) = F b - F a := by
  have hsteps := sum_range_sub (fun k : ℕ => F (a + k)) (b - a).toNat
  rw [sum_Ico_eq_range, Nat.cast_zero, add_zero, Int.toNat_of_nonneg (by omega)] at *
  simp only [Nat.cast_add, Nat.cast_one, ← add_assoc, add_sub_cancel] at hsteps
  exact hsteps

end Sums

section Cost

/-- What a timeline costs, where a piece costs its balance times `charge`. -/
def cost (charge : ℤ → ℤ → Dec) (policy : PenaltyPolicy) : List BalancePoint → Dec
  | [] => 0
  | p :: rest =>
    (if 0 < p.balance ∧ p.date < pieceEnd policy rest then
      p.balance * charge p.date (pieceEnd policy rest) else 0) + cost charge policy rest

/-- The point in force on day `d`. -/
def heldOn (points : List BalancePoint) (d : ℤ) : Option BalancePoint :=
  (points.filter (·.date ≤ d)).getLast?

/-- What day `d` costs at the weight `w start d`. -/
def dayCost (w : ℤ → ℤ → Dec) (points : List BalancePoint) (d : ℤ) : Dec :=
  match heldOn points d with
  | none => 0
  | some p => p.balance * w p.date d

variable {w charge : ℤ → ℤ → Dec} {policy : PenaltyPolicy} {points rest : List BalancePoint}
  {p : BalancePoint}

theorem heldOn_cons (p : BalancePoint) (rest : List BalancePoint) (d : ℤ) :
    heldOn (p :: rest) d = (heldOn rest d).or (if p.date ≤ d then some p else none) := by
  unfold heldOn
  rw [List.filter_cons]
  split_ifs with h1 h2 h2
  · rw [List.getLast?_cons]
    rcases hlast : (rest.filter (·.date ≤ d)).getLast? with _ | q <;> simp
  · exact absurd (of_decide_eq_true h1) h2
  · exact absurd (decide_eq_true h2) h1
  · rw [Option.or_none]

/-- On which days a point stays in force. -/
theorem heldOn_rest_none (hsorted : (p :: rest).Pairwise fun a b => a.date ≤ b.date) {d : ℤ} :
    heldOn rest d = none ↔ ∀ q ∈ rest.head?, d < q.date := by
  unfold heldOn
  rw [List.getLast?_eq_none_iff, List.filter_eq_nil_iff]
  rcases rest with _ | ⟨q, rest⟩
  · simp
  · have hq := (List.pairwise_cons.mp (List.pairwise_cons.mp hsorted).2).1
    simp only [List.head?_cons, Option.mem_def, Option.some.injEq, forall_eq', decide_eq_true_eq,
      not_le, List.forall_mem_cons]
    exact ⟨fun h => h.1, fun h => ⟨h, fun r hr => h.trans_le (hq r hr)⟩⟩

/-- A day costs what the first point charges it while in force, and what the others do. -/
theorem dayCost_cons (hsorted : (p :: rest).Pairwise fun a b => a.date ≤ b.date) (d : ℤ) :
    dayCost w (p :: rest) d =
      (if p.date ≤ d ∧ ∀ q ∈ rest.head?, d < q.date then p.balance * w p.date d else 0) +
        dayCost w rest d := by
  unfold dayCost
  rw [heldOn_cons]
  rcases hheld : heldOn rest d with _ | q
  · have hnext := (heldOn_rest_none hsorted).mp hheld
    by_cases hd : p.date ≤ d
    · rw [if_pos hd, Option.none_or, if_pos ⟨hd, hnext⟩, add_zero]
    · rw [if_neg hd, Option.none_or, if_neg fun h => hd h.1, add_zero]
  · have hnext : ¬∀ q ∈ rest.head?, d < q.date := fun h => by
      rw [(heldOn_rest_none hsorted).mpr h] at hheld
      cases hheld
    simp only [Option.some_or]
    rw [if_neg fun h => hnext h.2, zero_add]

/-- The days of the piece that starts at `p`. -/
theorem filter_piece {lo : ℤ} (hlo : lo ≤ p.date) :
    (Ico lo policy.returnDueDate).filter
        (fun d => p.date ≤ d ∧ ∀ q ∈ rest.head?, d < q.date) =
      Ico p.date (pieceEnd policy rest) := by
  ext d
  rw [mem_filter, mem_Ico, mem_Ico]
  unfold pieceEnd
  rcases rest with _ | ⟨q, rest⟩
  · simp
    omega
  · simp
    omega

/-- Where `charge` sums the weights of a piece's days, a timeline costs what its days cost. -/
theorem cost_eq_sum {lo : ℤ} {dates : Set ℤ}
    (hcharge : ∀ a b, a ∈ dates → b ∈ dates ∨ b = policy.returnDueDate → a < b →
      charge a b = ∑ d ∈ Ico a b, w a d) : ∀ {points : List BalancePoint},
    points.Pairwise (fun a b => a.date ≤ b.date) →
    (∀ p ∈ points, lo ≤ p.date ∧ 0 ≤ p.balance ∧ p.date ∈ dates) →
    cost charge policy points = ∑ d ∈ Ico lo policy.returnDueDate, dayCost w points d
  | [], _, _ => by simp [cost, dayCost, heldOn]
  | p :: rest, hsorted, hall => by
    obtain ⟨⟨hlo, hbal, hdate⟩, hrest⟩ := List.forall_mem_cons.mp hall
    rw [sum_congr rfl fun d _ => dayCost_cons hsorted d, sum_add_distrib, ← sum_filter,
      filter_piece hlo, cost, cost_eq_sum hcharge (List.pairwise_cons.mp hsorted).2 hrest]
    congr 1
    split_ifs with h
    · have hend : pieceEnd policy rest ∈ dates ∨ pieceEnd policy rest = policy.returnDueDate := by
        unfold pieceEnd
        rcases rest with _ | ⟨q, rest⟩
        · exact .inr (min_self _)
        · rcases min_choice q.date policy.returnDueDate with hmin | hmin
          · exact .inl (by simpa [hmin] using (hrest q List.mem_cons_self).2.2)
          · exact .inr (by simpa using hmin)
      rw [hcharge _ _ hdate hend h.2, mul_sum]
    · rcases hbal.eq_or_lt with hzero | hpos
      · simp [← hzero]
      · rw [Ico_eq_empty (fun hlt => h ⟨hpos, hlt⟩), sum_empty]

end Cost

section Daily

variable {policy : PenaltyPolicy} {balance : Dec} {start day : ℤ} {run : DailyRun}

/-- What the day `day` to `day + 1` costs a unit of balance. -/
def dayRate (policy : PenaltyPolicy) (day : ℤ) : Dec :=
  policy.rate (day + 1) / daysInYear (civil (day + 1)).y

/-- What the run of days that is open at `day` has come to. -/
def DailyRun.pending (balance : Dec) (day : ℤ) (run : DailyRun) : Dec :=
  match run.runRate with
  | none => 0
  | some r => balance * r.rate.getD 0 * ((day - run.runStart : ℤ) : Dec) / run.runYearDays

/-- The segments and the open run account for the days from `start` to `day`. -/
structure DailyRun.Covers (balance : Dec) (policy : PenaltyPolicy) (start day : ℤ)
    (run : DailyRun) : Prop where
  open_le : run.runStart ≤ day
  sum : (run.segments.map PenaltySegment.amount).sum + run.pending balance day =
    balance * ∑ d ∈ Ico start day, dayRate policy d

theorem flush_sum (balance : Dec) (run : DailyRun) (h : run.runStart ≤ day) :
    ((run.flush balance day).segments.map PenaltySegment.amount).sum =
      (run.segments.map PenaltySegment.amount).sum + run.pending balance day := by
  unfold DailyRun.flush DailyRun.pending
  rcases run.runRate with _ | r
  · exact (add_zero _).symm
  · simp only
    split_ifs with hle
    · have hzero : day - run.runStart = 0 := by omega
      simp [hzero]
    · simp

theorem sum_Ico_succ (f : ℤ → Dec) (h : start ≤ day) :
    ∑ d ∈ Ico start (day + 1), f d = ∑ d ∈ Ico start day, f d + f day := by
  rw [← insert_Ico_right_eq_Ico_add_one h, sum_insert right_notMem_Ico, add_comm]

theorem dailyStep_covers (h : run.Covers balance policy start day) (hle : start ≤ day) :
    (dailyStep balance policy run day).Covers balance policy start (day + 1) := by
  have hsum := h.sum
  have hday : balance * ∑ d ∈ Ico start (day + 1), dayRate policy d =
      balance * ∑ d ∈ Ico start day, dayRate policy d +
        balance * policy.rate (day + 1) / daysInYear (civil (day + 1)).y := by
    rw [sum_Ico_succ _ hle, mul_add, dayRate, mul_div_assoc]
  unfold dailyStep
  simp only
  split_ifs with hsame
  · -- the run goes on for a day
    obtain ⟨hrate, hyear⟩ := hsame
    refine ⟨by have := h.open_le; show run.runStart ≤ day + 1; omega, ?_⟩
    rw [hday, ← hsum]
    simp only [DailyRun.pending, hrate, ← hyear, PenaltyPolicy.rate]
    push_cast
    ring
  · -- the run is closed and the day opens one
    refine ⟨by show day ≤ day + 1; omega, ?_⟩
    have hflush := flush_sum balance { run with verify := run.verify ||
      (policy.rateOn (day + 1)).rate.isNone || !(policy.rateOn (day + 1)).covered } h.open_le
    rw [hday, ← hsum]
    refine (congrArg (· + _) hflush).trans ?_
    simp only [DailyRun.pending, PenaltyPolicy.rate, add_sub_cancel_left, Int.cast_one, mul_one]

theorem days_covers (balance : Dec) (policy : PenaltyPolicy) (start : ℤ) : ∀ (n : ℕ), (((List.range n).map fun k : ℕ => start + k).foldl
    (dailyStep balance policy) { runStart := start }).Covers balance policy start (start + n)
  | 0 => by
    refine ⟨by show start ≤ start + 0; omega, ?_⟩
    simp [DailyRun.pending]
  | n + 1 => by
    have ih := days_covers balance policy start n
    rw [List.range_succ, List.map_append, List.foldl_append]
    have := dailyStep_covers ih (by omega)
    rwa [add_assoc] at this

/-- Daily interest is the sum of the days' rates. -/
theorem accrueDaily_amount (balance : Dec) (policy : PenaltyPolicy) {a b : ℤ} (h : a ≤ b) :
    ((accrueDaily balance a b policy).segments.map PenaltySegment.amount).sum =
      balance * ∑ d ∈ Ico a b, dayRate policy d := by
  have hcovers := days_covers balance policy a (b - a).toNat
  rw [Int.toNat_of_nonneg (by omega), add_sub_cancel] at hcovers
  rw [← hcovers.sum]
  exact flush_sum balance _ hcovers.open_le

end Daily

section Charge

variable {policy : PenaltyPolicy}

/-- What a piece costs a unit of balance. -/
noncomputable def charge (policy : PenaltyPolicy) (a b : ℤ) : Dec :=
  match policy.method with
  | .dailySimple => ∑ d ∈ Ico a b, dayRate policy d
  | .monthlyOrFraction => policy.rate a / 12 * monthsOrFraction a b
  | .monthlyCompound => compoundGrowth (policy.rate a) (monthsOrFraction a b)
  | .tieredFlat => 0

theorem accruePiece_amount (hmethod : policy.method ≠ .tieredFlat) (balance : Dec) {a b : ℤ}
    (h : a ≤ b) :
    ((accruePiece balance a b policy).segments.map PenaltySegment.amount).sum =
      balance * charge policy a b := by
  unfold accruePiece charge
  rcases hm : policy.method with _ | _ | _ | _
  · simpa using accrueDaily_amount balance policy h
  · simp [accrueMonthly, PenaltyPolicy.rate, mul_assoc]
  · simp [accrueMonthly, PenaltyPolicy.rate]
  · exact absurd hm hmethod

theorem accruePoints_amount (hmethod : policy.method ≠ .tieredFlat) :
    ∀ (points : List BalancePoint) (acc : Accrued),
      ((accruePoints policy points acc).segments.map PenaltySegment.amount).sum =
        (acc.segments.map PenaltySegment.amount).sum + cost (charge policy) policy points
  | [], acc => (add_zero _).symm
  | p :: rest, acc => by
    unfold accruePoints cost
    split_ifs with h
    · rw [accruePoints_amount hmethod rest, List.map_append, List.sum_append,
        accruePiece_amount hmethod _ h.2.le, add_assoc]
    · rw [accruePoints_amount hmethod rest, zero_add]

/-- The penalty of an installment is what its timeline costs. -/
theorem installmentPenalty_exact (hmethod : policy.method ≠ .tieredFlat)
    (inst : InstallmentApplication) :
    (installmentPenalty policy inst).exact = cost (charge policy) policy inst.timeline := by
  have h := accruePoints_amount hmethod inst.timeline {}
  simp only [installmentPenalty, if_neg hmethod]
  rw [h]
  exact zero_add _

end Charge

section Months

/-- Between two days that are one day of the month whole months pass. -/
theorem monthsOrFraction_aligned {a b : ℤ} (h : a < b) (hd : (civil a).d = (civil b).d) :
    monthsOrFraction a b = monthIndex b - monthIndex a := by
  have hlt := monthIndex_lt_of_day_eq h hd
  unfold monthIndex at *
  simp only [monthsOrFraction, if_neg (not_le.mpr h), hd, lt_irrefl, if_false, if_true]
  omega

theorem growth_eq_pow (monthly : Dec) : ∀ months, growth monthly months = monthly ^ months
  | 0 => (pow_zero _).symm
  | months + 1 => by rw [growth, growth_eq_pow monthly months, pow_succ]

variable {policy : PenaltyPolicy} {r : Dec}

/-- What day `d` of a piece begun at `start` costs: a month's interest where a month begins on it. -/
def monthWeight (policy : PenaltyPolicy) (r : Dec) (start d : ℤ) : Dec :=
  if policy.method = .monthlyCompound then
    (1 + r / 12) ^ (monthIndex (d + 1) - monthIndex start).toNat -
      (1 + r / 12) ^ (monthIndex d - monthIndex start).toNat
  else r / 12 * monthIndex (d + 1) - r / 12 * monthIndex d

/-- Where dates are one day of the month and the rate is one, the months are a sum over days. -/
theorem charge_months (hmethod : policy.method = .monthlyOrFraction ∨
    policy.method = .monthlyCompound) {a b : ℤ} (h : a < b) (hd : (civil a).d = (civil b).d)
    (hr : policy.rate a = r) : charge policy a b = ∑ d ∈ Ico a b, monthWeight policy r a d := by
  have hmonths := monthsOrFraction_aligned h hd
  unfold charge monthWeight
  rcases hmethod with hm | hm
  · simp only [hm, reduceCtorEq, if_false]
    rw [sum_Ico_steps (fun d => r / 12 * (monthIndex d : Dec)) h.le, hr, hmonths]
    push_cast
    ring
  · simp only [hm, if_true]
    rw [sum_Ico_steps (fun d => (1 + r / 12) ^ (monthIndex d - monthIndex a).toNat) h.le,
      compoundGrowth, growth_eq_pow, hmonths, hr, sub_self, Int.toNat_zero, pow_zero]

theorem monthWeight_nonneg (hr : 0 ≤ r) (start d : ℤ) : 0 ≤ monthWeight policy r start d := by
  have hmono := monthIndex_mono (by omega : d ≤ d + 1)
  unfold monthWeight
  split_ifs
  · exact sub_nonneg.mpr (pow_le_pow_right₀ (by linarith [div_nonneg hr (by norm_num : (0 : ℚ) ≤ 12)])
      (by omega))
  · rw [← mul_sub]
    have : (monthIndex d : ℚ) ≤ monthIndex (d + 1) := by exact_mod_cast hmono
    exact mul_nonneg (by positivity) (by linarith)

/-- A piece begun later costs a day no more. -/
theorem monthWeight_anti (hr : 0 ≤ r) {s s' d : ℤ} (hs : s ≤ s') (hd : s' ≤ d) :
    monthWeight policy r s' d ≤ monthWeight policy r s d := by
  unfold monthWeight
  split_ifs
  swap
  · exact le_rfl
  have h1 := monthIndex_mono hs
  have h2 := monthIndex_mono hd
  have h3 := monthIndex_mono (by omega : d ≤ d + 1)
  have hq : (1 : ℚ) ≤ 1 + r / 12 := by
    have : 0 ≤ r / 12 := by positivity
    linarith
  obtain ⟨k, hk⟩ := Int.eq_ofNat_of_zero_le (sub_nonneg.mpr h1)
  obtain ⟨e, he⟩ := Int.eq_ofNat_of_zero_le (sub_nonneg.mpr h2)
  obtain ⟨δ, hδ⟩ := Int.eq_ofNat_of_zero_le (sub_nonneg.mpr h3)
  have e1 : (monthIndex (d + 1) - monthIndex s').toNat = e + δ := by omega
  have e2 : (monthIndex d - monthIndex s').toNat = e := by omega
  have e3 : (monthIndex (d + 1) - monthIndex s).toNat = e + k + δ := by omega
  have e4 : (monthIndex d - monthIndex s).toNat = e + k := by omega
  rw [e1, e2, e3, e4, pow_add _ e δ, pow_add _ (e + k) δ, ← mul_sub_one, ← mul_sub_one]
  exact mul_le_mul_of_nonneg_right (pow_le_pow_right₀ hq (by omega))
    (sub_nonneg.mpr (one_le_pow₀ hq))

end Months

end MyBooks
