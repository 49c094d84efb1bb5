import MyBooks.FirstIn
import MyBooks.PenaltyDays

/-!
# Paying more or earlier

The unpaid total of a day is what the schedule requires by then beyond what was paid, whatever the
order of the due dates (`upTo_unpaid`), so daily interest never rises where at every day no less has
been paid. The monthly methods count the months of each piece anew: they need dates that are one day
of the month at one rate, and compounding needs a payment on each day the other list pays, for a
payment starts the months again (`accruePenalty_earlier`).
-/

namespace MyBooks

open Finset

section Held

variable {points : List BalancePoint} {p : BalancePoint} {t d : ℤ}

/-- A point still in force on day `d` was so on the days since its own. -/
theorem heldOn_between (h : heldOn points d = some p) (hp : p.date ≤ t) (ht : t ≤ d) :
    heldOn points t = some p := by
  unfold heldOn at *
  have hfilter : points.filter (·.date ≤ t) = (points.filter (·.date ≤ d)).filter (·.date ≤ t) := by
    rw [List.filter_filter]
    refine List.filter_congr fun q _ => ?_
    by_cases hq : q.date ≤ t
    · simp [hq, hq.trans ht]
    · simp [hq]
  obtain ⟨l, hl⟩ := List.getLast?_eq_some_iff.mp h
  rw [hfilter, hl, List.filter_append]
  simp [hp]

theorem heldOn_mem (h : heldOn points d = some p) : p ∈ points ∧ p.date ≤ d := by
  have := List.mem_filter.mp (List.mem_of_getLast? h)
  exact ⟨this.1, of_decide_eq_true this.2⟩

end Held

section Timelines

variable {inp : PaymentApplicationInput} {t : ℤ}

/-- The point in force on day `t` is the last of the state on that day. -/
theorem heldOn_final (hreq : ∀ inst ∈ inp.installments, 0 ≤ inst.required)
    (hshape : inp.withholdingShares.length = inp.installments.length) {i : ℕ}
    {inst : InstallmentDue} {row : Running} (hinst : inp.installments[i]? = some inst)
    (hrow : inp.final.rows[i]? = some row) (t : ℤ) :
    ∃ mid, (inp.upTo t).rows[i]? = some mid ∧
      (inst.dueDate ≤ t → ∃ p, heldOn row.timeline t = some p ∧ p.balance = mid.balance) ∧
      (¬inst.dueDate ≤ t → heldOn row.timeline t = none ∧ mid.balance = 0) := by
  obtain ⟨mid, hmid, hsame⟩ := run_timeline (t := t)
    (fun ev hev => by simpa using (List.mem_filter.mp hev).2) (final_eq_run inp t ▸ hrow)
  have htracks := (upTo_sound hreq t).tracks i inst mid hinst hmid
  have hpast : mid.timeline.filter (·.date ≤ t) = mid.timeline :=
    List.filter_eq_self.mpr fun p hp => decide_eq_true (htracks.past p hp).1
  have hheld : heldOn row.timeline t = mid.timeline.getLast? := by
    unfold heldOn
    rw [hsame, hpast]
  refine ⟨mid, hmid, fun hle => ?_, fun hlt => ?_⟩
  · obtain ⟨points, d, hlast⟩ := htracks.last ((upTo_due hshape hinst hmid).mpr hle)
    exact ⟨⟨d, mid.balance⟩, by rw [hheld, hlast]; simp, rfl⟩
  · have hundue := htracks.undue (by simpa using (upTo_due hshape hinst hmid).not.mpr hlt)
    rw [hheld, hundue]
    exact ⟨rfl, rfl⟩

/-- What the due installments require on day `t`. -/
def PaymentApplicationInput.requiredBy (inp : PaymentApplicationInput) (t : ℤ) : Dec :=
  (inp.installments.map fun inst => if inst.dueDate ≤ t then inst.required else 0).sum

/-- The unpaid total of a day, whatever the order of the due dates. -/
theorem upTo_unpaid (hreq : ∀ inst ∈ inp.installments, 0 ≤ inst.required)
    (hshape : inp.withholdingShares.length = inp.installments.length) (t : ℤ) :
    ((inp.upTo t).rows.map Running.balance).sum =
      max 0 (inp.requiredBy t - inp.received (· ≤ t)) := by
  have hsound := upTo_sound hreq t
  have hdemands : demands inp.installments (inp.upTo t).rows =
      inp.installments.map fun inst => if inst.dueDate ≤ t then inst.required else 0 := by
    refine List.ext_getElem (by simp [demands, hsound.length]) fun i h1 h2 => ?_
    have hi : i < inp.installments.length := by simpa using h2
    have hir : i < (inp.upTo t).rows.length := hsound.length ▸ hi
    have hdue := upTo_due hshape (List.getElem?_eq_getElem hi) (List.getElem?_eq_getElem hir)
    simp [demands, hdue]
  have htotal := hsound.total
  rw [hdemands] at htotal
  have hsum : 0 ≤ ((inp.upTo t).rows.map Running.balance).sum :=
    List.sum_nonneg hsound.balances_nonneg
  have hover := hsound.excess
  unfold PaymentApplicationInput.requiredBy
  rcases hsound.spare with hzero | hall
  · rw [max_eq_right (by linarith)]
    linarith
  · have hunpaid : ((inp.upTo t).rows.map Running.balance).sum = 0 :=
      List.sum_eq_zero fun b hb => by
        obtain ⟨row, hrow, rfl⟩ := List.mem_map.mp hb
        exact hall row hrow
    rw [max_eq_left (by linarith), hunpaid]

/-- A timeline's dates are those of the events. -/
theorem run_dates {dates : Set ℤ} : ∀ {events : List Event} {s : PayState} {i : ℕ} {row' : Running},
    (∀ ev ∈ events, ev.date ∈ dates) → (s.run events).rows[i]? = some row' →
    ∃ row, s.rows[i]? = some row ∧ ∀ p ∈ row'.timeline, p ∈ row.timeline ∨ p.date ∈ dates
  | [], s, i, row', _, h => ⟨row', h, fun _ hp => .inl hp⟩
  | ev :: events, s, i, row', hd, h => by
    obtain ⟨hev, hevs⟩ := List.forall_mem_cons.mp hd
    rw [run_cons] at h
    obtain ⟨mid, hmid, hdates⟩ := run_dates hevs h
    obtain ⟨row, hrow, hafter⟩ := step_row hmid
    refine ⟨row, hrow, fun p hp => (hdates p hp).elim (fun hp => ?_) .inr⟩
    rcases hafter with ⟨-, -, rfl⟩ | ⟨-, -, rfl⟩ | ⟨payment, -, rfl | ⟨x, -, -, -, rfl⟩⟩
    · rw [fallDue_timeline _ _ _ _ (min_le_right _ _), List.mem_append, List.mem_singleton] at hp
      refine hp.imp_right fun h => ?_
      rw [h]
      exact hev
    · exact .inl hp
    · exact .inl hp
    · refine (List.mem_append.mp hp).imp_right fun h => ?_
      rw [List.mem_singleton.mp h]
      exact hev

/-- Of two points of a timeline the later one is lower. -/
theorem Running.Tracks.lower {inst : InstallmentDue} {now : ℤ} {row : Running}
    (h : row.Tracks inst now) {p q : BalancePoint} (hp : p ∈ row.timeline) (hq : q ∈ row.timeline)
    (hlt : p.date < q.date) : q.balance < p.balance := by
  obtain ⟨i, hi, rfl⟩ := List.getElem_of_mem hp
  obtain ⟨j, hj, rfl⟩ := List.getElem_of_mem hq
  have hfall := List.pairwise_iff_getElem.mp h.falling
  rcases lt_trichotomy i j with hij | rfl | hij
  · exact (hfall i j hi hj hij).2
  · exact absurd hlt (lt_irrefl _)
  · have := (hfall j i hj hi hij).1
    omega

/-- No point lies before the due date. -/
theorem Running.Tracks.from_due {inst : InstallmentDue} {now : ℤ} {row : Running}
    (h : row.Tracks inst now) {p : BalancePoint} (hp : p ∈ row.timeline) :
    inst.dueDate ≤ p.date := by
  rcases hdue : row.due with _ | _
  · rw [h.undue hdue] at hp
    cases hp
  · obtain ⟨b, points, hstart⟩ := h.starts hdue
    have hfall := h.falling
    rw [hstart] at hp hfall
    rcases List.mem_cons.mp hp with rfl | hp
    · exact le_rfl
    · exact ((List.pairwise_cons.mp hfall).1 p hp).1

end Timelines

section Totals

variable {inp : PaymentApplicationInput} {policy : PenaltyPolicy} {w : ℤ → ℤ → Dec} {dates : Set ℤ}

theorem sum_map_sum (f : Running → ℤ → Dec) (S : Finset ℤ) : ∀ rows : List Running,
    (rows.map fun row => ∑ d ∈ S, f row d).sum = ∑ d ∈ S, (rows.map fun row => f row d).sum
  | [] => by simp
  | row :: rows => by
    simp only [List.map_cons, List.sum_cons, sum_map_sum f S rows, sum_add_distrib]

theorem exists_due_before (insts : List InstallmentDue) :
    ∃ lo : ℤ, ∀ inst ∈ insts, lo ≤ inst.dueDate := by
  induction insts with
  | nil => exact ⟨0, nofun⟩
  | cons inst insts ih =>
    obtain ⟨lo, hlo⟩ := ih
    exact ⟨min lo inst.dueDate, List.forall_mem_cons.mpr
      ⟨min_le_right _ _, fun i hi => (min_le_left _ _).trans (hlo i hi)⟩⟩

/-- An installment's cost is the sum of its days, where the charge is one over days. -/
theorem final_cost (hreq : ∀ inst ∈ inp.installments, 0 ≤ inst.required)
    (hdates : ∀ ev ∈ inp.events, ev.date ∈ dates)
    (hcharge : ∀ a b, a ∈ dates → b ∈ dates ∨ b = policy.returnDueDate → a < b →
      charge policy a b = ∑ d ∈ Ico a b, w a d) {lo : ℤ}
    (hlo : ∀ inst ∈ inp.installments, lo ≤ inst.dueDate) {row : Running}
    (hrow : row ∈ inp.final.rows) :
    cost (charge policy) policy row.timeline =
      ∑ d ∈ Ico lo policy.returnDueDate, dayCost w row.timeline d := by
  obtain ⟨t, -, hsound⟩ := final_sound hreq
  obtain ⟨i, hi, rfl⟩ := List.getElem_of_mem hrow
  have hi' : i < inp.installments.length := hsound.length ▸ hi
  have htracks := hsound.tracks i _ _ (List.getElem?_eq_getElem hi') (List.getElem?_eq_getElem hi)
  refine cost_eq_sum hcharge (htracks.falling.imp fun h => h.1) fun p hp => ⟨?_, ?_, ?_⟩
  · exact (hlo _ (List.getElem_mem hi')).trans (htracks.from_due hp)
  · exact (htracks.past p hp).2
  · obtain ⟨row0, hrow0, hmem⟩ := run_dates hdates (s := inp.start) (List.getElem?_eq_getElem hi)
    rw [start_row hrow0] at hmem
    exact (hmem p hp).resolve_left (by simp)

/-- The penalty before a waiver. -/
theorem totalBeforeWaiver_eq (hreq : ∀ inst ∈ inp.installments, 0 ≤ inst.required)
    (hmethod : policy.method ≠ .tieredFlat) {r : PaymentApplicationResult}
    (hr : applyPayments inp = .ok r) :
    (accruePenalty r policy).exact.totalBeforeWaiver =
      (inp.final.rows.map fun row => cost (charge policy) policy row.timeline).sum := by
  unfold applyPayments at hr
  split_ifs at hr with hshape
  obtain rfl := Except.ok.inj hr
  obtain ⟨t, -, hsound⟩ := final_sound hreq
  simp only [accruePenalty, List.map_map]
  rw [← result_map (not_not.mp hshape) hsound.length (f := fun a =>
    cost (charge policy) policy a.timeline) fun _ => rfl]
  exact congrArg List.sum (List.map_congr_left fun a _ => installmentPenalty_exact hmethod a)

/-- Where a day's weight does not depend on where the piece began, the penalty is what the unpaid
totals of the days cost. -/
theorem final_cost_total (hreq : ∀ inst ∈ inp.installments, 0 ≤ inst.required)
    (hshape : inp.withholdingShares.length = inp.installments.length) (v : ℤ → Dec) (d : ℤ) :
    (inp.final.rows.map fun row => dayCost (fun _ => v) row.timeline d).sum =
      max 0 (inp.requiredBy d - inp.received (· ≤ d)) * v d := by
  rw [← upTo_unpaid hreq hshape d, ← List.sum_map_mul_right]
  congr 1
  obtain ⟨t, -, hsound⟩ := final_sound hreq
  have hlen := (upTo_sound hreq d).length
  refine List.ext_getElem (by simp [hsound.length, hlen]) fun i h1 h2 => ?_
  have hi : i < inp.final.rows.length := by simpa using h1
  have hi' : i < inp.installments.length := hsound.length ▸ hi
  obtain ⟨mid, hmid, hdue, hundue⟩ := heldOn_final hreq hshape (List.getElem?_eq_getElem hi')
    (List.getElem?_eq_getElem hi) d
  obtain ⟨him, rfl⟩ := List.getElem?_eq_some_iff.mp hmid
  simp only [List.getElem_map, dayCost]
  by_cases hle : inp.installments[i].dueDate ≤ d
  · obtain ⟨p, hp, hbal⟩ := hdue hle
    rw [hp, ← hbal]
  · obtain ⟨hnone, hbal⟩ := hundue hle
    rw [hnone, hbal, zero_mul]

end Totals

section Earlier

/-- What the payments above zero come to by day `t`. -/
def paidThrough (payments : List EstimatePayment) (t : ℤ) : Dec :=
  tally (fun p => decide (0 < p.amount) && decide (p.date ≤ t)) EstimatePayment.amount payments

def PaymentApplicationInput.withPayments (inp : PaymentApplicationInput)
    (payments : List EstimatePayment) : PaymentApplicationInput :=
  { inp with payments := payments }

variable {inp : PaymentApplicationInput} {A B : List EstimatePayment} {policy : PenaltyPolicy}

/-- What the withholding shares above zero come to by day `t`. -/
def PaymentApplicationInput.withheldBy (inp : PaymentApplicationInput) (t : ℤ) : Dec :=
  tally (fun x : InstallmentDue × Dec => decide (0 < x.2) && decide (x.1.dueDate ≤ t)) Prod.snd
    (inp.installments.zip inp.withholdingShares)

theorem received_withPayments (t : ℤ) :
    (inp.withPayments A).received (· ≤ t) = inp.withheldBy t + paidThrough A t := rfl

theorem received_mono {t t' : ℤ} (h : t ≤ t') :
    inp.received (· ≤ t) ≤ inp.received (· ≤ t') := by
  refine add_le_add (tally_mono ?_ ?_) (tally_mono ?_ ?_) <;> intro x _ hx <;>
    simp only [Bool.and_eq_true, decide_eq_true_eq] at hx ⊢
  · exact ⟨hx.1, hx.2.trans h⟩
  · exact hx.1.le
  · exact ⟨hx.1, hx.2.trans h⟩
  · exact hx.1.le

/-- With a weight that is the day's own, no less paid by any day costs no more. -/
theorem penalty_le_of_weight (v : ℤ → Dec) (hv : ∀ d, 0 ≤ v d) (dates : Set ℤ)
    (hreq : ∀ inst ∈ inp.installments, 0 ≤ inst.required)
    (hcharge : ∀ a b, a ∈ dates → b ∈ dates ∨ b = policy.returnDueDate → a < b →
      charge policy a b = ∑ d ∈ Ico a b, v d)
    (hA : ∀ ev ∈ (inp.withPayments A).events, ev.date ∈ dates)
    (hB : ∀ ev ∈ (inp.withPayments B).events, ev.date ∈ dates)
    (hshape : inp.withholdingShares.length = inp.installments.length)
    (hpaid : ∀ t, paidThrough A t ≤ paidThrough B t) :
    ((inp.withPayments B).final.rows.map fun row =>
        cost (charge policy) policy row.timeline).sum ≤
      ((inp.withPayments A).final.rows.map fun row =>
        cost (charge policy) policy row.timeline).sum := by
  obtain ⟨lo, hlo⟩ := exists_due_before inp.installments
  have hsum : ∀ C, (∀ ev ∈ (inp.withPayments C).events, ev.date ∈ dates) →
      ((inp.withPayments C).final.rows.map fun row =>
        cost (charge policy) policy row.timeline).sum =
      ∑ d ∈ Ico lo policy.returnDueDate,
        max 0 (inp.requiredBy d - (inp.withheldBy d + paidThrough C d)) * v d := by
    intro C hC
    have hreqC : ∀ inst ∈ (inp.withPayments C).installments, 0 ≤ inst.required := hreq
    rw [List.map_congr_left fun row hrow =>
      final_cost (w := fun _ => v) hreqC hC hcharge hlo hrow, sum_map_sum]
    refine sum_congr rfl fun d _ => ?_
    rw [final_cost_total hreqC hshape v d, received_withPayments]
    rfl
  rw [hsum A hA, hsum B hB]
  refine sum_le_sum fun d _ => mul_le_mul_of_nonneg_right ?_ (hv d)
  exact max_le_max le_rfl (by linarith [hpaid d])

/-- Between two days something was paid, withheld or not. -/
theorem received_lt (hpays : ∀ p ∈ A, 0 < p.amount → ∃ q ∈ B, 0 < q.amount ∧ q.date = p.date)
    {x : ℤ} (h : (inp.withPayments A).received (· ≤ x - 1) < (inp.withPayments A).received (· ≤ x)) :
    (inp.withPayments B).received (· ≤ x - 1) < (inp.withPayments B).received (· ≤ x) := by
  rw [received_withPayments, received_withPayments] at *
  have hle : x - 1 ≤ x := by omega
  have hwithheld : inp.withheldBy (x - 1) ≤ inp.withheldBy x := by
    refine tally_mono ?_ ?_ <;> intro y _ hy <;>
      simp only [Bool.and_eq_true, decide_eq_true_eq] at hy ⊢
    · exact ⟨hy.1, hy.2.trans hle⟩
    · exact hy.1.le
  have hpq : ∀ y ∈ B, decide (0 < y.amount) && decide (y.date ≤ x - 1) →
      decide (0 < y.amount) && decide (y.date ≤ x) := by
    intro y _ hy
    simp only [Bool.and_eq_true, decide_eq_true_eq] at hy ⊢
    exact ⟨hy.1, hy.2.trans hle⟩
  have hw : ∀ y ∈ B, decide (0 < y.amount) && decide (y.date ≤ x) → 0 ≤ y.amount := by
    intro y _ hy
    simp only [Bool.and_eq_true, decide_eq_true_eq] at hy
    exact hy.1.le
  have hpaidB : paidThrough B (x - 1) ≤ paidThrough B x := tally_mono hpq hw
  by_cases hday : ∃ p ∈ A, 0 < p.amount ∧ p.date = x
  · obtain ⟨p, hp, hpos, rfl⟩ := hday
    obtain ⟨q, hq, hqpos, hqdate⟩ := hpays p hp hpos
    have hlt : paidThrough B (p.date - 1) < paidThrough B p.date :=
      tally_lt hq (by simp [hqdate]) (by simp [hqpos, hqdate]) hqpos hpq hw
    exact add_lt_add_of_le_of_lt hwithheld hlt
  · -- nothing of `A` is dated that day, so something was withheld
    have hsame : paidThrough A (x - 1) = paidThrough A x := by
      refine tally_congr (fun y hy => ?_) fun _ _ _ => rfl
      by_cases hpos : 0 < y.amount
      · have hne : y.date ≠ x := fun hyx => hday ⟨y, hy, hpos, hyx⟩
        simp only [hpos, decide_true, Bool.true_and, decide_eq_decide]
        omega
      · simp [hpos]
    exact add_lt_add_of_lt_of_le (by linarith) hpaidB

/-- A shortage that still falls under the less paid `P` falls under `Q` as well. -/
theorem shortage_lt {req R P P' Q Q' : Dec}
    (h : min req (max 0 (R - P)) < min req (max 0 (R - P'))) (hPQ : P ≤ Q) (hQ : Q' < Q)
    (hpos : 0 < min req (max 0 (R - Q))) :
    min req (max 0 (R - Q)) < min req (max 0 (R - Q')) := by
  have hR : 0 < R - Q := by
    by_contra hle
    rw [max_eq_left (not_lt.mp hle)] at hpos
    exact absurd (min_le_right req 0) (not_le.mpr hpos)
  have hreq : R - P < req := by
    by_contra hle
    rw [max_eq_right (by linarith : 0 ≤ R - P), min_eq_left (not_lt.mp hle)] at h
    exact absurd (min_le_left req _) (not_le.mpr h)
  rw [max_eq_right hR.le, max_eq_right (by linarith : 0 ≤ R - Q'),
    min_eq_right (by linarith : R - Q ≤ req)]
  exact lt_min (by linarith) (by linarith)

/-- The balance of the point in force is the closed form. -/
theorem heldOn_balance (hreq : ∀ inst ∈ inp.installments, 0 ≤ inst.required)
    (hdue : inp.installments.Pairwise fun a b => a.dueDate ≤ b.dueDate)
    (hshape : inp.withholdingShares.length = inp.installments.length) {i : ℕ}
    {inst : InstallmentDue} {row : Running} (hinst : inp.installments[i]? = some inst)
    (hrow : inp.final.rows[i]? = some row) {t : ℤ} (hle : inst.dueDate ≤ t) :
    ∃ p, heldOn row.timeline t = some p ∧ p.balance =
      min inst.required (max 0 (inp.requiredThrough i - inp.received (· ≤ t))) := by
  obtain ⟨mid, hmid, hon, -⟩ := heldOn_final hreq hshape hinst hrow t
  obtain ⟨p, hp, hbal⟩ := hon hle
  exact ⟨p, hp, hbal.trans (upTo_balance hreq hdue hshape hinst hmid hle)⟩

/-- While the earlier payer still lacks something, its piece began no earlier. -/
theorem piece_start_le (hreq : ∀ inst ∈ inp.installments, 0 ≤ inst.required)
    (hdue : inp.installments.Pairwise fun a b => a.dueDate ≤ b.dueDate)
    (hshape : inp.withholdingShares.length = inp.installments.length)
    (hpaid : ∀ t, paidThrough A t ≤ paidThrough B t)
    (hpays : ∀ p ∈ A, 0 < p.amount → ∃ q ∈ B, 0 < q.amount ∧ q.date = p.date)
    {i : ℕ} {inst : InstallmentDue} {rowA rowB : Running} (hinst : inp.installments[i]? = some inst)
    (hrowA : (inp.withPayments A).final.rows[i]? = some rowA)
    (hrowB : (inp.withPayments B).final.rows[i]? = some rowB) {d : ℤ} {pA pB : BalancePoint}
    (hA : heldOn rowA.timeline d = some pA) (hB : heldOn rowB.timeline d = some pB)
    (hpos : 0 < pB.balance) : pA.date ≤ pB.date := by
  by_contra hlt
  have hreqA : ∀ inst ∈ (inp.withPayments A).installments, 0 ≤ inst.required := hreq
  have hreqB : ∀ inst ∈ (inp.withPayments B).installments, 0 ≤ inst.required := hreq
  obtain ⟨_, -, hsoundA⟩ := final_sound hreqA
  obtain ⟨_, -, hsoundB⟩ := final_sound hreqB
  have htracksA := hsoundA.tracks i inst rowA hinst hrowA
  have hfrom := (hsoundB.tracks i inst rowB hinst hrowB).from_due (heldOn_mem hB).1
  have hx := (heldOn_mem hA).2
  have hdue1 : inst.dueDate ≤ pA.date - 1 := by omega
  have hdue2 : inst.dueDate ≤ pA.date := by omega
  -- the later payer's balance falls on the day its piece begins
  obtain ⟨p1, hp1, hbal1⟩ := heldOn_balance hreqA hdue hshape hinst hrowA hdue1
  obtain ⟨p2, hp2, hbal2⟩ := heldOn_balance hreqA hdue hshape hinst hrowA hdue2
  obtain rfl : pA = p2 := Option.some.inj ((heldOn_between hA le_rfl hx).symm.trans hp2)
  have hday1 := (heldOn_mem hp1).2
  have hfall := htracksA.lower (heldOn_mem hp1).1 (heldOn_mem hA).1 (by omega)
  -- and the earlier payer's would have fallen too, but its point stays in force
  obtain ⟨q1, hq1, hqbal1⟩ := heldOn_balance hreqB hdue hshape hinst hrowB hdue1
  obtain ⟨q2, hq2, hqbal2⟩ := heldOn_balance hreqB hdue hshape hinst hrowB hdue2
  obtain rfl : pB = q1 :=
    Option.some.inj ((heldOn_between hB (by omega) (by omega)).symm.trans hq1)
  obtain rfl : pB = q2 :=
    Option.some.inj ((heldOn_between hB (by omega) hx).symm.trans hq2)
  have hless : (inp.withPayments A).received (· ≤ pA.date) ≤
      (inp.withPayments B).received (· ≤ pA.date) := add_le_add le_rfl (hpaid pA.date)
  have hmove : (inp.withPayments A).received (· ≤ pA.date - 1) <
      (inp.withPayments A).received (· ≤ pA.date) := by
    refine lt_of_le_of_ne (received_mono (by omega)) fun heq => ?_
    rw [hbal1, hbal2, heq] at hfall
    exact lt_irrefl _ hfall
  have hQ := received_lt hpays hmove
  rw [hbal1, hbal2] at hfall
  rw [hqbal2] at hpos
  have := shortage_lt hfall hless hQ hpos
  exact this.ne (hqbal2.symm.trans hqbal1)

/-- Every day the schedule or a payment names is the return due date's day of the month, at rate
`r`. -/
structure OneDay (inp : PaymentApplicationInput) (payments : List EstimatePayment)
    (policy : PenaltyPolicy) (r : Dec) : Prop where
  due : ∀ inst ∈ inp.installments,
    (civil inst.dueDate).d = (civil policy.returnDueDate).d ∧ policy.rate inst.dueDate = r
  paid : ∀ p ∈ payments, 0 < p.amount →
    (civil p.date).d = (civil policy.returnDueDate).d ∧ policy.rate p.date = r

theorem OneDay.events {r : Dec} (h : OneDay inp A policy r) :
    ∀ ev ∈ (inp.withPayments A).events,
      (civil ev.date).d = (civil policy.returnDueDate).d ∧ policy.rate ev.date = r := by
  intro ev hev
  rcases mem_pushed (mem_events.mp hev) with ⟨i, inst, share, hinst, -, hmem⟩ | ⟨p, hp, hpos, rfl⟩
  · have hdate : ev.date = inst.dueDate := by
      rcases mem_installmentEvents hmem with rfl | ⟨-, hdate, -⟩
      · rfl
      · exact hdate
    rw [hdate]
    exact h.due inst (List.mem_of_getElem? hinst)
  · exact h.paid p hp hpos

/-- On such days the monthly charges are sums over days. -/
theorem charge_oneDay {r : Dec} (hmethod : policy.method = .monthlyOrFraction ∨
    policy.method = .monthlyCompound) {a b : ℤ}
    (ha : (civil a).d = (civil policy.returnDueDate).d ∧ policy.rate a = r)
    (hb : ((civil b).d = (civil policy.returnDueDate).d ∧ policy.rate b = r) ∨
      b = policy.returnDueDate) (h : a < b) :
    charge policy a b = ∑ d ∈ Ico a b, monthWeight policy r a d := by
  refine charge_months hmethod h ?_ ha.2
  rcases hb with hb | rfl
  · rw [ha.1, hb.1]
  · exact ha.1

theorem policy_rate_nonneg (hrate : ∀ d r, (policy.rateOn d).rate = some r → 0 ≤ r) (d : ℤ) :
    0 ≤ policy.rate d := by
  unfold PenaltyPolicy.rate
  rcases hr : (policy.rateOn d).rate with _ | r
  · exact le_rfl
  · exact hrate d r hr

theorem penalty_le_compound {r : Dec} (hr : 0 ≤ r)
    (hmethod : policy.method = .monthlyOrFraction ∨ policy.method = .monthlyCompound)
    (hreq : ∀ inst ∈ inp.installments, 0 ≤ inst.required)
    (hdue : inp.installments.Pairwise fun a b => a.dueDate ≤ b.dueDate)
    (hshape : inp.withholdingShares.length = inp.installments.length)
    (hpaid : ∀ t, paidThrough A t ≤ paidThrough B t)
    (hpays : ∀ p ∈ A, 0 < p.amount → ∃ q ∈ B, 0 < q.amount ∧ q.date = p.date)
    (hA : OneDay inp A policy r) (hB : OneDay inp B policy r) :
    ((inp.withPayments B).final.rows.map fun row =>
        cost (charge policy) policy row.timeline).sum ≤
      ((inp.withPayments A).final.rows.map fun row =>
        cost (charge policy) policy row.timeline).sum := by
  obtain ⟨lo, hlo⟩ := exists_due_before inp.installments
  have hreqA : ∀ inst ∈ (inp.withPayments A).installments, 0 ≤ inst.required := hreq
  have hreqB : ∀ inst ∈ (inp.withPayments B).installments, 0 ≤ inst.required := hreq
  obtain ⟨_, -, hsoundA⟩ := final_sound hreqA
  obtain ⟨_, -, hsoundB⟩ := final_sound hreqB
  have hlenA : (inp.withPayments A).final.rows.length = inp.installments.length := hsoundA.length
  have hlenB : (inp.withPayments B).final.rows.length = inp.installments.length := hsoundB.length
  refine List.Forall₂.sum_le_sum (List.forall₂_iff_get.mpr ⟨by simp [hlenA, hlenB], ?_⟩)
  intro i h1 h2
  have hiB : i < (inp.withPayments B).final.rows.length := by simpa using h1
  have hiA : i < (inp.withPayments A).final.rows.length := by simpa using h2
  have hinst := List.getElem?_eq_getElem (hlenA ▸ hiA : i < inp.installments.length)
  have hrowA := List.getElem?_eq_getElem hiA
  have hrowB := List.getElem?_eq_getElem hiB
  simp only [List.get_eq_getElem, List.getElem_map]
  rw [final_cost hreqA hA.events (fun a b => charge_oneDay hmethod) hlo (List.getElem_mem hiA),
    final_cost hreqB hB.events (fun a b => charge_oneDay hmethod) hlo (List.getElem_mem hiB)]
  refine sum_le_sum fun d _ => ?_
  -- on each day the earlier payer lacks no more, and its piece began no earlier
  unfold dayCost
  by_cases hle : inp.installments[i].dueDate ≤ d
  · obtain ⟨pA, hpA, hbalA⟩ := heldOn_balance hreqA hdue hshape hinst hrowA hle
    obtain ⟨pB, hpB, hbalB⟩ := heldOn_balance hreqB hdue hshape hinst hrowB hle
    rw [hpA, hpB]
    show pB.balance * _ ≤ pA.balance * _
    have hbal : pB.balance ≤ pA.balance := by
      rw [hbalA, hbalB]
      refine min_le_min le_rfl (max_le_max le_rfl (sub_le_sub le_rfl ?_))
      exact add_le_add le_rfl (hpaid d)
    have htracksB := hsoundB.tracks i _ _ hinst hrowB
    have hnonneg := (htracksB.past pB (heldOn_mem hpB).1).2
    rcases hnonneg.eq_or_lt with hzero | hpos
    · rw [← hzero, zero_mul]
      exact mul_nonneg (hzero ▸ hbal) (monthWeight_nonneg hr _ _)
    · have hstart := piece_start_le hreq hdue hshape hpaid hpays hinst hrowA hrowB hpA hpB hpos
      exact mul_le_mul hbal (monthWeight_anti hr hstart (heldOn_mem hpB).2)
        (monthWeight_nonneg hr _ _) (hpos.le.trans hbal)
  · obtain ⟨_, -, -, hnone⟩ := heldOn_final hreqA hshape hinst hrowA d
    obtain ⟨_, -, -, hnoneB⟩ := heldOn_final hreqB hshape hinst hrowB d
    rw [(hnone hle).1, (hnoneB hle).1]

/-- Where by every day no less has been paid, daily interest is no higher. On days that are one day
of the month at one rate neither are the monthly methods, the compounding one where something is
also paid on each day the other list pays and installments are due in order. -/
theorem accruePenalty_earlier (inp : PaymentApplicationInput) (A B : List EstimatePayment)
    (policy : PenaltyPolicy) (hreq : ∀ inst ∈ inp.installments, 0 ≤ inst.required)
    (hrate : ∀ d r, (policy.rateOn d).rate = some r → 0 ≤ r)
    (hpaid : ∀ t, paidThrough A t ≤ paidThrough B t) {rA rB : PaymentApplicationResult}
    (hA : applyPayments (inp.withPayments A) = .ok rA)
    (hB : applyPayments (inp.withPayments B) = .ok rB)
    (hmethod : policy.method = .dailySimple ∨
      (∃ r, 0 ≤ r ∧ OneDay inp A policy r ∧ OneDay inp B policy r) ∧
        (policy.method = .monthlyOrFraction ∨ policy.method = .monthlyCompound ∧
          (inp.installments.Pairwise fun a b => a.dueDate ≤ b.dueDate) ∧
          ∀ p ∈ A, 0 < p.amount → ∃ q ∈ B, 0 < q.amount ∧ q.date = p.date)) :
    (accruePenalty rB policy).exact.total ≤ (accruePenalty rA policy).exact.total := by
  have hshape : inp.withholdingShares.length = inp.installments.length := by
    unfold applyPayments at hA
    split_ifs at hA with hshape
    exact not_not.mp hshape
  have hflat : policy.method ≠ .tieredFlat := by
    rcases hmethod with h | ⟨-, h | h⟩ <;> simp [h]
  suffices hle : (accruePenalty rB policy).exact.totalBeforeWaiver ≤
      (accruePenalty rA policy).exact.totalBeforeWaiver by
    show (if policy.waiver.isSome then 0 else _) ≤ (if policy.waiver.isSome then 0 else _)
    split_ifs
    · exact le_rfl
    · exact hle
  have hreqA : ∀ inst ∈ (inp.withPayments A).installments, 0 ≤ inst.required := hreq
  have hreqB : ∀ inst ∈ (inp.withPayments B).installments, 0 ≤ inst.required := hreq
  rw [totalBeforeWaiver_eq hreqA hflat hA, totalBeforeWaiver_eq hreqB hflat hB]
  rcases hmethod with hm | ⟨⟨r, hr, hdayA, hdayB⟩, hm⟩
  · refine penalty_le_of_weight (dayRate policy) (fun d => ?_) Set.univ hreq
      (fun a b _ _ _ => ?_) (fun _ _ => trivial) (fun _ _ => trivial) hshape hpaid
    · exact div_nonneg (policy_rate_nonneg hrate _) (Nat.cast_nonneg _)
    · simp only [charge, hm]
  · rcases hm with hm | ⟨hm, hdue, hpays⟩
    · have hweight : ∀ a d, monthWeight policy r a d = monthWeight policy r d d := fun a d => by
        simp only [monthWeight, hm, reduceCtorEq, if_false]
      refine penalty_le_of_weight (fun d => monthWeight policy r d d)
        (fun d => monthWeight_nonneg hr d d)
        {d | (civil d).d = (civil policy.returnDueDate).d ∧ policy.rate d = r} hreq
        (fun a b ha hb hab => ?_) hdayA.events hdayB.events hshape hpaid
      rw [charge_oneDay (.inl hm) ha hb hab]
      exact sum_congr rfl fun d _ => hweight a d
    · exact penalty_le_compound hr (.inr hm) hreq hdue hshape hpaid hpays hdayA hdayB

/-- One installment of 1200 due on 15 April 2026. -/
def oneInstallment : PaymentApplicationInput where
  jurisdiction := "HI"
  installments := [⟨0, 20558, 1200⟩]
  withholdingShares := [0]
  payments := []

def flatPolicy (method : PenaltyMethod) (returnDueDate : ℤ) : PenaltyPolicy where
  jurisdiction := "HI"
  method := method
  rateOn := flatRateLookup (8 / 100)
  returnDueDate := returnDueDate
  waiver := none
  lastInstallmentReliefDate := none
  verify := false
  notes := []

/-- Twelve dollars paid on a day. -/
def partPayment (date : ℤ) : EstimatePayment := ⟨"part", date, 12, .manual⟩

theorem paidThrough_nil_le (B : List EstimatePayment) (t : ℤ) :
    paidThrough [] t ≤ paidThrough B t :=
  tally_nonneg fun p _ hp => by
    simp only [Bool.and_eq_true, decide_eq_true_eq] at hp
    exact hp.1.le

/-- By the month or part of one, twelve dollars paid on 20 April start a second month for the rest:
the penalty to 15 May is 15.92, where without the payment it is 8. -/
theorem partPayment_costs_more :
    (∀ t, paidThrough [] t ≤ paidThrough [partPayment 20563] t) ∧
      ∃ rA rB, applyPayments (oneInstallment.withPayments []) = .ok rA ∧
        applyPayments (oneInstallment.withPayments [partPayment 20563]) = .ok rB ∧
        (accruePenalty rA (flatPolicy .monthlyOrFraction 20588)).exact.total = 8 ∧
        (accruePenalty rB (flatPolicy .monthlyOrFraction 20588)).exact.total = 1592 / 100 :=
  ⟨paidThrough_nil_le _, _, _, rfl, rfl, by decide +kernel, by decide +kernel⟩

theorem flatPolicy_rate_nonneg (method : PenaltyMethod) (returnDueDate : ℤ) (d : ℤ) (r : Dec)
    (h : ((flatPolicy method returnDueDate).rateOn d).rate = some r) : 0 ≤ r := by
  obtain rfl : (8 / 100 : Dec) = r := Option.some.inj h
  norm_num

theorem oneInstallment_oneDay (method : PenaltyMethod) {payments : List EstimatePayment}
    (h : ∀ p ∈ payments, p = partPayment 20588) :
    OneDay oneInstallment payments (flatPolicy method 20619) (8 / 100) := by
  refine ⟨fun inst hinst => ?_, fun p hp _ => ?_⟩
  · obtain rfl := List.mem_singleton.mp hinst
    exact ⟨(by decide : (civil 20558).d = (civil 20619).d), rfl⟩
  · rw [h p hp]
    exact ⟨(by decide : (civil 20588).d = (civil 20619).d), rfl⟩

theorem oneInstallment_earlier :
    (accruePenalty (oneInstallment.withPayments [partPayment 20563]).result
        (flatPolicy .dailySimple 20588)).exact.total ≤
      (accruePenalty (oneInstallment.withPayments []).result
        (flatPolicy .dailySimple 20588)).exact.total ∧
    (accruePenalty (oneInstallment.withPayments [partPayment 20588]).result
        (flatPolicy .monthlyCompound 20619)).exact.total ≤
      (accruePenalty (oneInstallment.withPayments []).result
        (flatPolicy .monthlyCompound 20619)).exact.total :=
  have hreq : ∀ inst ∈ oneInstallment.installments, 0 ≤ inst.required := by decide +kernel
  ⟨accruePenalty_earlier oneInstallment [] [partPayment 20563] _ hreq
      (flatPolicy_rate_nonneg _ _) (paidThrough_nil_le _) rfl rfl (.inl rfl),
    accruePenalty_earlier oneInstallment [] [partPayment 20588] _ hreq
      (flatPolicy_rate_nonneg _ _) (paidThrough_nil_le _) rfl rfl
      (.inr ⟨⟨8 / 100, by norm_num, oneInstallment_oneDay _ (by simp),
        oneInstallment_oneDay _ (by simp)⟩, .inr ⟨rfl, List.pairwise_singleton _ _, by simp⟩⟩)⟩

end Earlier

end MyBooks
