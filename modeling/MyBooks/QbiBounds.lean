import MyBooks.Qbi
import Mathlib.Algebra.BigOperators.Ring.List
import Mathlib.Algebra.Order.Field.Rat

/-!
# Bounds of the qualified business income deduction

What is split off by `allocate` adds up exactly, and each part is off its proportion by the rounding
of the quotients. So netting keeps the total, a gain stays between nothing and itself but for that
rounding, and the deductions of a person that are not attributed to an excluded business are taken
out in full.
-/

namespace MyBooks

/-- Half a unit of the last place of a quotient. -/
def quotientError : Dec := 1 / 2 / 10 ^ 12

theorem abs_dDiv_sub_le (a b : Dec) : |dDiv a b - a / b| ≤ quotientError := by
  have hlo := le_roundHalfUp (a / b * 10 ^ 12)
  have hhi := roundHalfUp_le (a / b * 10 ^ 12)
  unfold dDiv toPlaces quotientError
  rw [abs_le]
  constructor <;> linarith

section Allocate

variable {pool : Dec} {weights : List (Id × Dec)}

theorem positive_sum (hw : ∀ e ∈ weights, 0 < e.2) (hne : weights ≠ []) :
    0 < (weights.map Prod.snd).sum := by
  refine List.sum_pos _ (fun w h => ?_) (by simpa using hne)
  obtain ⟨e, he, rfl⟩ := List.mem_map.mp h
  exact hw e he

theorem allocate_eq (hpool : 0 < pool) (htotal : 0 < (weights.map Prod.snd).sum)
    (hn : (weights.map Prod.fst).Nodup) :
    allocate pool weights =
      splitLast (fun w => dDiv (pool * w) (weights.map Prod.snd).sum) pool weights := by
  have hkeys := splitLast_keys (fun w => dDiv (pool * w) (weights.map Prod.snd).sum) pool weights
  unfold allocate
  rw [if_neg (by simp [hpool, htotal]), Entries.foldl_set_of_nodup Prod.fst Prod.snd]
  · simp
  · rw [hkeys]
    simpa using hn

variable (pool) in
theorem allocate_keys (hn : (weights.map Prod.fst).Nodup) :
    (allocate pool weights).keys = [] ∨ (allocate pool weights).keys = weights.map Prod.fst := by
  by_cases h : 0 < pool ∧ 0 < (weights.map Prod.snd).sum
  · rw [allocate_eq h.1 h.2 hn]
    exact .inr (splitLast_keys _ _ _)
  · refine .inl ?_
    unfold allocate
    rw [if_pos (not_and_or.mp h)]
    rfl

theorem allocate_of_notMem (hn : (weights.map Prod.fst).Nodup) {k : Id}
    (hk : k ∉ weights.map Prod.fst) : (allocate pool weights).get? k = none := by
  refine Entries.get?_of_notMem fun h => ?_
  rcases allocate_keys pool hn with hkeys | hkeys
  · rw [hkeys] at h
    exact List.not_mem_nil h
  · exact hk (hkeys ▸ h)

variable (pool) in
/-- The parts add up to the pool. -/
theorem allocate_sum (hw : ∀ e ∈ weights, 0 < e.2) (hn : (weights.map Prod.fst).Nodup)
    {ks : List Id} (hks : ks.Nodup) (hsub : weights.map Prod.fst ⊆ ks) :
    (ks.map fun k => ((allocate pool weights).get? k).getD 0).sum =
      if weights = [] then 0 else max 0 pool := by
  have hsum : (ks.map fun k => ((allocate pool weights).get? k).getD 0).sum =
      ((allocate pool weights).map Prod.snd).sum := by
    rcases allocate_keys pool hn with hkeys | hkeys
    · refine Entries.sum_getD ?_ hks ?_ <;> rw [hkeys]
      · exact List.nodup_nil
      · exact List.nil_subset _
    · refine Entries.sum_getD ?_ hks ?_ <;> rw [hkeys]
      · exact hn
      · exact hsub
  rw [hsum]
  split_ifs with hne
  · subst hne
    simp [allocate]
  · by_cases hpool : 0 < pool
    · rw [allocate_eq hpool (positive_sum hw hne) hn, splitLast_sum _ _ hne, max_eq_right hpool.le]
    · simp [allocate, hpool, max_eq_left (not_lt.mp hpool)]

/-- Each part is near its proportion of the pool. -/
theorem allocate_near (hpool : 0 < pool) (hw : ∀ e ∈ weights, 0 < e.2)
    (hn : (weights.map Prod.fst).Nodup) {e : Id × Dec} (he : e ∈ weights) :
    |((allocate pool weights).get? e.1).getD 0 - pool * e.2 / (weights.map Prod.snd).sum| ≤
      (weights.length - 1) * quotientError := by
  have htotal := positive_sum hw (List.ne_nil_of_mem he)
  have hparts : (weights.map fun e => pool * e.2 / (weights.map Prod.snd).sum).sum = pool := by
    have hscale : ∀ e ∈ weights, pool * e.2 / (weights.map Prod.snd).sum =
        pool / (weights.map Prod.snd).sum * e.2 := fun e _ => by ring
    rw [List.map_congr_left hscale, List.sum_map_mul_left, div_mul_cancel₀ _ htotal.ne']
  have hnear := splitLast_near (fun w => dDiv (pool * w) (weights.map Prod.snd).sum)
    (fun w => pool * w / (weights.map Prod.snd).sum) (by norm_num [quotientError])
    (fun e _ => abs_dDiv_sub_le _ _) (show |pool - _| ≤ 0 by rw [hparts, sub_self, abs_zero])
  rw [allocate_eq hpool htotal hn]
  obtain ⟨i, hi, rfl⟩ := List.getElem_of_mem he
  have hlen := hnear.length_eq
  have hp := hnear.get hi (hlen ▸ hi)
  have hget : Entries.get? (splitLast (fun w => dDiv (pool * w) (weights.map Prod.snd).sum) pool
      weights) weights[i].1 = some ((splitLast (fun w => dDiv (pool * w)
        (weights.map Prod.snd).sum) pool weights).get ⟨i, hlen ▸ hi⟩).2 := by
    rw [Entries.get?_eq_some (by rw [Entries.keys, splitLast_keys]; exact hn)]
    rw [List.get_eq_getElem] at hp ⊢
    exact List.mem_of_getElem (Prod.ext hp.1 rfl)
  rw [hget]
  simpa using hp.2

/-- Only the last part takes what the rounding leaves. -/
theorem allocate_near_of_not_last (hpool : 0 < pool) (hw : ∀ e ∈ weights, 0 < e.2)
    (hn : (weights.map Prod.fst).Nodup) {e : Id × Dec} (he : e ∈ weights)
    (hlast : weights.getLast? ≠ some e) :
    |((allocate pool weights).get? e.1).getD 0 - pool * e.2 / (weights.map Prod.snd).sum| ≤
      quotientError := by
  have htotal := positive_sum hw (List.ne_nil_of_mem he)
  rw [allocate_eq hpool htotal hn]
  obtain ⟨i, hi, rfl⟩ := List.getElem_of_mem he
  have hnext : i + 1 < weights.length := by
    refine lt_of_le_of_ne hi fun hend => hlast ?_
    rw [List.getLast?_eq_getElem?, ← hend, Nat.add_sub_cancel, List.getElem?_eq_getElem hi]
  have hpart : (weights[i].1, dDiv (pool * weights[i].2) (weights.map Prod.snd).sum) ∈
      splitLast (fun w => dDiv (pool * w) (weights.map Prod.snd).sum) pool weights := by
    refine List.mem_of_getElem? (i := i) ?_
    rw [splitLast_getElem? _ _ hnext, List.getElem?_eq_getElem hi]
    rfl
  rw [(Entries.get?_eq_some (by rw [Entries.keys, splitLast_keys]; exact hn)).mpr hpart]
  exact abs_dDiv_sub_le _ _

end Allocate

section Netting

variable {live : List QbiComponent}

/-- The parts of a sum over some of the rows. -/
theorem sum_map_ite {α M : Type*} [AddCommMonoid M] (p : α → Prop) [DecidablePred p] (f : α → M)
    (xs : List α) : (xs.map fun x => if p x then f x else 0).sum = ((xs.filter p).map f).sum := by
  rw [List.sum_map_ite, List.sum_map_zero, add_zero]

theorem absorbed_nonneg (live : List QbiComponent) : 0 ≤ absorbed live := by
  refine le_min (List.sum_nonneg ?_) (List.sum_nonneg ?_)
  · intro x hx
    obtain ⟨c, -, rfl⟩ := List.mem_map.mp hx
    exact abs_nonneg _
  · intro x hx
    obtain ⟨c, hc, rfl⟩ := List.mem_map.mp hx
    exact (of_decide_eq_true (List.mem_filter.mp hc).2).le

/-- What the gains are the recipients of. -/
theorem gains_weights (live : List QbiComponent) :
    ∀ e ∈ (gains live).map fun c => (c.linkId, c.qbi), 0 < e.2 := by
  intro e he
  obtain ⟨c, hc, rfl⟩ := List.mem_map.mp he
  exact of_decide_eq_true (List.mem_filter.mp hc).2

theorem gains_keys (live : List QbiComponent) : ((gains live).map fun c => (c.linkId, c.qbi)).map
    Prod.fst = (gains live).map (·.linkId) := by
  rw [List.map_map]
  rfl

theorem gains_total (live : List QbiComponent) : (((gains live).map fun c => (c.linkId, c.qbi)).map
    Prod.snd).sum = totalGain live := by
  rw [List.map_map]
  rfl

theorem gains_nodup (hlinks : (live.map (·.linkId)).Nodup) :
    (((gains live).map fun c => (c.linkId, c.qbi)).map Prod.fst).Nodup := by
  rw [gains_keys]
  exact hlinks.sublist (List.filter_sublist.map _)

/-- The losses that are absorbed are absorbed in full. -/
theorem absorbedBy_sum (hlinks : (live.map (·.linkId)).Nodup) :
    ((gains live).map fun c => ((absorbedBy live).get? c.linkId).getD 0).sum = absorbed live := by
  have hn := gains_nodup hlinks
  have hsum := allocate_sum (absorbed live) (gains_weights live) hn hn (List.Subset.refl _)
  rw [List.map_map, List.map_map] at hsum
  rw [show ((gains live).map fun c => ((absorbedBy live).get? c.linkId).getD 0).sum = _ from hsum]
  split_ifs with hnone
  · have hg : totalGain live = 0 := by rw [totalGain, List.map_eq_nil_iff.mp hnone]; rfl
    have habs := absorbed_nonneg live
    rw [absorbed, hg] at habs ⊢
    exact (le_antisymm (min_le_right _ _) habs).symm
  · exact max_eq_right (absorbed_nonneg live)

/-- Netting keeps the total. -/
theorem net_sum (hlinks : (live.map (·.linkId)).Nodup) (hzero : ∀ c ∈ live, c.qbiAfterNetting = 0) :
    (live.map fun c => (c.net live).qbiAfterNetting).sum =
      max 0 (totalGain live - totalLoss live) := by
  have hread : ∀ c ∈ live, (c.net live).qbiAfterNetting =
      if 0 < c.qbi then c.qbi - ((absorbedBy live).get? c.linkId).getD 0 else 0 := by
    intro c hc
    unfold QbiComponent.net
    split_ifs
    · rfl
    · rfl
    · exact hzero c hc
  rw [List.map_congr_left hread, sum_map_ite (fun c : QbiComponent => 0 < c.qbi), sum_map_sub]
  have habsorbed := absorbedBy_sum hlinks
  unfold gains at habsorbed
  rw [habsorbed]
  change totalGain live - min (totalLoss live) (totalGain live) = _
  rw [min_comm, max_comm]
  rcases le_total (totalGain live) (totalLoss live) with h | h
  · rw [min_eq_left h, max_eq_right (by linarith), sub_self]
  · rw [min_eq_right h, max_eq_left (by linarith)]

/-- The rounding that netting leaves in a gain: none without a loss, a quotient's own in all gains
but the last, and in the last one that of all the others. -/
def nettingError (live : List QbiComponent) (linkId : Id) : Dec :=
  if totalLoss live = 0 then 0
  else if (gains live).getLast?.map (·.linkId) = some linkId then
    ((gains live).length - 1) * quotientError
  else quotientError

theorem absorbedBy_nil (h : totalLoss live = 0) : absorbedBy live = [] := by
  have habs : absorbed live ≤ 0 := by
    rw [absorbed, h]
    exact min_le_left _ _
  unfold absorbedBy allocate
  exact if_pos (.inl (not_lt.mpr habs))

/-- A gain is netted down to something between nothing and itself, but for rounding. -/
theorem net_bounds (hlinks : (live.map (·.linkId)).Nodup) {c : QbiComponent} (hc : c ∈ live)
    (hqbi : 0 < c.qbi) : -nettingError live c.linkId ≤ (c.net live).qbiAfterNetting ∧
      (c.net live).qbiAfterNetting ≤ c.qbi + nettingError live c.linkId := by
  have hnet : (c.net live).qbiAfterNetting =
      c.qbi - ((absorbedBy live).get? c.linkId).getD 0 := by
    rw [QbiComponent.net, if_pos hqbi]
  rw [hnet]
  by_cases hloss : totalLoss live = 0
  · rw [nettingError, if_pos hloss, absorbedBy_nil hloss]
    simpa using hqbi.le
  have hmem : c ∈ gains live := List.mem_filter.mpr ⟨hc, decide_eq_true hqbi⟩
  have hgain : 0 < totalGain live := by
    rw [← gains_total]
    exact positive_sum (gains_weights live) (by simpa using List.ne_nil_of_mem hmem)
  have hpos : 0 < absorbed live := by
    have h0 : 0 ≤ totalLoss live := by
      have := absorbed_nonneg live
      exact this.trans (min_le_left _ _)
    exact lt_min (lt_of_le_of_ne h0 (Ne.symm hloss)) hgain
  have hweight : (c.linkId, c.qbi) ∈ (gains live).map fun c => (c.linkId, c.qbi) :=
    List.mem_map.mpr ⟨c, hmem, rfl⟩
  have hnear : |((absorbedBy live).get? c.linkId).getD 0 - absorbed live * c.qbi / totalGain live| ≤
      nettingError live c.linkId := by
    rw [nettingError, if_neg hloss]
    split_ifs with hlast
    · have h := allocate_near hpos (gains_weights live) (gains_nodup hlinks) hweight
      rwa [gains_total, List.length_map] at h
    · have hother : ((gains live).map fun c => (c.linkId, c.qbi)).getLast? ≠
          some (c.linkId, c.qbi) := fun h => by
        rw [List.getLast?_map] at h
        obtain ⟨d, hd, heq⟩ := Option.map_eq_some_iff.mp h
        exact hlast (by rw [hd, Option.map_some, (Prod.mk.inj heq).1])
      have h := allocate_near_of_not_last hpos (gains_weights live) (gains_nodup hlinks) hweight hother
      rwa [gains_total] at h
  -- the exact part is between nothing and the gain
  have hpart0 : 0 ≤ absorbed live * c.qbi / totalGain live := by positivity
  have hpart1 : absorbed live * c.qbi / totalGain live ≤ c.qbi := by
    rw [div_le_iff₀ hgain, mul_comm]
    exact mul_le_mul_of_nonneg_left (min_le_right _ _) hqbi.le
  obtain ⟨hlo, hhi⟩ := abs_le.mp hnear
  constructor <;> linarith

end Netting

section Limit

variable {params : QbiParams} {ti : Dec}

variable (params ti) in
theorem phaseIn_nonneg : 0 ≤ params.phaseIn ti := by
  unfold QbiParams.phaseIn
  dsimp only
  split_ifs
  · exact le_min (le_max_right _ _) zero_le_one
  · exact zero_le_one
  · exact le_rfl

/-- Fully phased in is above the threshold. -/
theorem above_of_phased (h : 1 ≤ params.phaseIn ti) : 0 < ti - params.threshold := by
  unfold QbiParams.phaseIn at h
  dsimp only at h
  split_ifs at h with hrange hexcess
  · by_contra hnot
    have hq : (ti - params.threshold) / params.phaseInRange ≤ 0 :=
      div_nonpos_of_nonpos_of_nonneg (not_lt.mp hnot) hrange.le
    have hd : dDiv (ti - params.threshold) params.phaseInRange ≤ 0 := by
      rw [dDiv, ← toPlaces_zero (p := 12)]
      exact toPlaces_mono hq
    rw [max_eq_right hd, min_eq_left zero_le_one] at h
    linarith
  · exact hexcess
  · linarith

theorem wageUbiaLimit_nonneg {w2 ubia : Option Dec} (hp : 0 ≤ params.w2WagePct)
    (hw : 0 ≤ w2.getD 0) : 0 ≤ params.wageUbiaLimit w2 ubia := by
  have hlimb := mul_nonneg hp hw
  cases ubia with
  | none => exact hlimb
  | some ubia => exact hlimb.trans (le_max_left _ _)

variable (params ti) in
/-- What the limit leaves of a component. -/
structure QbiComponent.Limited (c : QbiComponent) : Prop where
  tentative : c.tentative = params.rate * c.qbiAfterNetting
  limit : ∀ l ∈ c.wageUbiaLimit, l = params.wageUbiaLimit c.w2Wages c.ubia
  lower : min c.tentative (params.wageUbiaLimit c.w2Wages c.ubia) ≤ c.component
  upper : c.component ≤ c.tentative
  below : ti ≤ params.threshold → c.component = c.tentative
  phased : 1 ≤ params.phaseIn ti → 0 ≤ params.rate → 0 ≤ params.w2WagePct → 0 ≤ c.w2Wages.getD 0 →
    c.component ≤ params.wageUbiaLimit c.w2Wages c.ubia

theorem QbiComponent.limited_spec {c : QbiComponent} (hnone : c.wageUbiaLimit = none) :
    (c.limited params ti).Limited params ti := by
  unfold QbiComponent.limited
  dsimp only
  split_ifs with happly hover hfull
  · -- the limit in full
    refine ⟨rfl, ?_, ?_, hover.le, fun hti => ?_, fun _ _ _ _ => le_rfl⟩
    · rintro l ⟨⟩
      rfl
    · exact min_le_right _ _
    · exact absurd happly.1 (by linarith)
  · -- the part of the excess that is phased in
    have h0 := phaseIn_nonneg params ti
    have hexcess := sub_pos.mpr hover
    refine ⟨rfl, ?_, ?_, ?_, fun hti => ?_, fun hp => absurd hp hfull⟩
    · rintro l ⟨⟩
      rfl
    · refine (min_le_right _ _).trans ?_
      have := mul_le_of_le_one_right hexcess.le (not_le.mp hfull).le
      dsimp only
      linarith
    · have := mul_nonneg hexcess.le h0
      dsimp only
      linarith
    · exact absurd happly.1 (by linarith)
  · refine ⟨rfl, ?_, min_le_left _ _, le_rfl, fun _ => rfl, fun _ _ _ _ => not_lt.mp hover⟩
    rintro l ⟨⟩
    rfl
  · refine ⟨rfl, ?_, min_le_left _ _, le_rfl, fun _ => rfl, fun hp hrate hpct hw2 => ?_⟩
    · intro l hl
      rw [show c.wageUbiaLimit = none from hnone] at hl
      cases hl
    · -- no gain is left to limit
      have hnet : c.qbiAfterNetting ≤ 0 :=
        not_lt.mp fun hpos => happly ⟨above_of_phased hp, hpos⟩
      exact (mul_nonpos_of_nonneg_of_nonpos hrate hnet).trans (wageUbiaLimit_nonneg hpct hw2)

end Limit

section Result

variable {params : QbiParams} {manual : Option Dec} {q : QbiContext}

@[simp] theorem componentOf_linkId {p : PersonIncome} {s : AllocatedShare} :
    (componentOf params q p s).linkId = s.linkId := by
  unfold componentOf
  dsimp only
  split_ifs <;> rfl

@[simp] theorem componentOf_qbiAfterNetting {p : PersonIncome} {s : AllocatedShare} :
    (componentOf params q p s).qbiAfterNetting = 0 := by
  unfold componentOf
  dsimp only
  split_ifs <;> rfl

@[simp] theorem componentOf_wageUbiaLimit {p : PersonIncome} {s : AllocatedShare} :
    (componentOf params q p s).wageUbiaLimit = none := by
  unfold componentOf
  dsimp only
  split_ifs <;> rfl

theorem componentOf_attributable {p : PersonIncome} {s : AllocatedShare} :
    (componentOf params q p s).attributableDeductions =
      if (exclusion s (q.entityByLink.get? s.linkId)).isSome then 0
      else q.attributed p s.linkId := by
  unfold componentOf
  dsimp only
  split_ifs <;> rfl

theorem mem_qbiComponents {c : QbiComponent} (h : c ∈ qbiComponents params q) :
    c.qbiAfterNetting = 0 ∧ c.wageUbiaLimit = none := by
  obtain ⟨p, -, hc⟩ := List.mem_flatMap.mp h
  obtain ⟨s, -, rfl⟩ := List.mem_map.mp hc
  exact ⟨componentOf_qbiAfterNetting, componentOf_wageUbiaLimit⟩

variable (params) in
theorem qbiComponents_links : (qbiComponents params q).map (·.linkId) =
    q.persons.flatMap fun p => p.shares.map (·.linkId) := by
  unfold qbiComponents
  rw [List.map_flatMap]
  refine List.flatMap_congr fun p _ => ?_
  rw [List.map_map]
  exact List.map_congr_left fun s _ => componentOf_linkId

/-- A component after netting and limits, which leave the rest of it. -/
theorem net_limited (c : QbiComponent) (live : List QbiComponent) (params : QbiParams) (ti : Dec) :
    ((c.net live).limited params ti).linkId = c.linkId ∧
      ((c.net live).limited params ti).eligible = c.eligible ∧
      ((c.net live).limited params ti).qbi = c.qbi ∧
      ((c.net live).limited params ti).attributableDeductions = c.attributableDeductions ∧
      ((c.net live).limited params ti).qbiAfterNetting = (c.net live).qbiAfterNetting ∧
      (c.net live).wageUbiaLimit = c.wageUbiaLimit := by
  unfold QbiComponent.net QbiComponent.limited
  dsimp only
  split_ifs <;> exact ⟨rfl, rfl, rfl, rfl, rfl, rfl⟩

/-- The eligible components of a result. -/
def QbiResult.live (r : QbiResult) : List QbiComponent := r.components.filter (·.eligible)

theorem filter_map_ite {α : Type*} (p : α → Bool) (g : α → α) (hg : ∀ x, p (g x) = p x) :
    ∀ xs : List α, (xs.map fun x => if p x then g x else x).filter p = (xs.filter p).map g
  | [] => rfl
  | x :: xs => by
    rw [List.map_cons, List.filter_cons, List.filter_cons, filter_map_ite p g hg xs]
    cases h : p x <;> simp [h, hg]

theorem computeQbi_live : (computeQbi params manual q).live =
    ((qbiComponents params q).filter (·.eligible)).map fun c =>
      (c.net ((qbiComponents params q).filter (·.eligible))).limited params
        q.taxableIncomeBeforeQbi :=
  filter_map_ite _ _ (fun c => (net_limited c _ _ _).2.1) _

theorem gains_map {f : QbiComponent → QbiComponent} (hf : ∀ c, (f c).qbi = c.qbi) :
    ∀ live, gains (live.map f) = (gains live).map f
  | [] => rfl
  | c :: live => by
    have ih := gains_map hf live
    unfold gains at ih ⊢
    rw [List.map_cons, List.filter_cons, List.filter_cons, hf, ih]
    split_ifs <;> rfl

theorem losses_map {f : QbiComponent → QbiComponent} (hf : ∀ c, (f c).qbi = c.qbi) :
    ∀ live, losses (live.map f) = (losses live).map f
  | [] => rfl
  | c :: live => by
    have ih := losses_map hf live
    unfold losses at ih ⊢
    rw [List.map_cons, List.filter_cons, List.filter_cons, hf, ih]
    split_ifs <;> rfl

theorem totals_map {f : QbiComponent → QbiComponent} (hf : ∀ c, (f c).qbi = c.qbi)
    (live : List QbiComponent) :
    totalGain (live.map f) = totalGain live ∧ totalLoss (live.map f) = totalLoss live := by
  unfold totalGain totalLoss
  rw [gains_map hf, losses_map hf, List.map_map, List.map_map]
  exact ⟨congrArg List.sum (List.map_congr_left fun c _ => hf c),
    congrArg List.sum (List.map_congr_left fun c _ => by rw [Function.comp, hf])⟩

end Result

section Attributed

variable {q : QbiContext} {p : PersonIncome}

theorem positive_pos {weights : List (Id × Dec)} : ∀ e ∈ positive weights, 0 < e.2 :=
  fun _ he => of_decide_eq_true (List.mem_filter.mp he).2

/-- The links of weights that are positive are some of the person's. -/
theorem positive_keys (w : AllocatedShare → Dec) (shares : List AllocatedShare) :
    List.Sublist ((positive (shares.map fun s => (s.linkId, w s))).map Prod.fst)
      (shares.map (·.linkId)) := by
  have h : (shares.map fun s => (s.linkId, w s)).map Prod.fst = shares.map (·.linkId) := by
    rw [List.map_map]
    rfl
  rw [← h]
  exact List.filter_sublist.map _

theorem sehiWeights_cases (p : PersonIncome) : sehiWeights p = ownWeights p ∨
    sehiWeights p = seWeights p ∨ sehiWeights p = wageWeights p := by
  unfold sehiWeights
  split_ifs <;> simp

theorem sehiWeights_spec (p : PersonIncome) : (∀ e ∈ sehiWeights p, 0 < e.2) ∧
    List.Sublist ((sehiWeights p).map Prod.fst) (p.shares.map (·.linkId)) := by
  rcases sehiWeights_cases p with h | h | h <;> rw [h]
  · exact ⟨positive_pos, positive_keys _ _⟩
  · exact ⟨positive_pos, positive_keys _ _⟩
  · exact ⟨positive_pos, positive_keys _ _⟩

/-- What of a person's deductions some business is to take. -/
def QbiContext.taken (q : QbiContext) (p : PersonIncome) : Dec :=
  (if seWeights p = [] then 0 else max 0 (q.sePool p)) +
    if sehiWeights p = [] then 0 else max 0 (q.deductionsOf p).sehi

theorem attributed_sum (hlinks : (p.shares.map (·.linkId)).Nodup) :
    ((p.shares.map (·.linkId)).map (q.attributed p)).sum = q.taken p := by
  unfold QbiContext.attributed QbiContext.taken
  obtain ⟨hpos, hsub⟩ := sehiWeights_spec p
  have hse := positive_keys (·.seIncome) p.shares
  rw [List.sum_map_add]
  exact congrArg₂ (· + ·)
    (allocate_sum _ positive_pos (hlinks.sublist hse) hlinks hse.subset)
    (allocate_sum _ hpos (hlinks.sublist hsub) hlinks hsub.subset)

theorem attributed_of_notMem (hlinks : (p.shares.map (·.linkId)).Nodup) {linkId : Id}
    (hse : linkId ∉ (seWeights p).map Prod.fst) (hsehi : linkId ∉ (sehiWeights p).map Prod.fst) :
    q.attributed p linkId = 0 := by
  have hsub : List.Sublist ((seWeights p).map Prod.fst) (p.shares.map (·.linkId)) :=
    positive_keys _ _
  unfold QbiContext.attributed
  rw [allocate_of_notMem (hlinks.sublist hsub) hse,
    allocate_of_notMem (hlinks.sublist (sehiWeights_spec p).2) hsehi]
  exact add_zero 0

end Attributed

/-- The rows made of one member are those of its keys. -/
theorem filter_flatMap_keys {α β κ : Type*} [DecidableEq κ] (keys : α → List κ) (f : α → List β)
    (key : β → κ) (hkeys : ∀ x, (f x).map key = keys x) : ∀ {xs : List α},
    (xs.flatMap keys).Nodup → ∀ {x : α}, x ∈ xs →
      (xs.flatMap f).filter (fun b => key b ∈ keys x) = f x
  | x' :: xs, hn, x, hx => by
    rw [List.flatMap_cons] at hn
    obtain ⟨-, hn', hdisj⟩ := List.nodup_append.mp hn
    rw [List.flatMap_cons, List.filter_append]
    have hself : ∀ x, (f x).filter (fun b => key b ∈ keys x) = f x := fun x =>
      List.filter_eq_self.mpr fun b hb =>
        decide_eq_true (hkeys x ▸ List.mem_map_of_mem hb)
    rcases List.mem_cons.mp hx with rfl | hx
    · rw [hself, List.filter_eq_nil_iff.mpr, List.append_nil]
      intro b hb hkey
      obtain ⟨y, hy, hby⟩ := List.mem_flatMap.mp hb
      exact hdisj _ (of_decide_eq_true hkey) _
        (List.mem_flatMap.mpr ⟨y, hy, hkeys y ▸ List.mem_map_of_mem hby⟩) rfl
    · rw [filter_flatMap_keys keys f key hkeys hn' hx, List.filter_eq_nil_iff.mpr, List.nil_append]
      intro b hb hkey
      exact hdisj _ (hkeys x' ▸ List.mem_map_of_mem hb) _
        (List.mem_flatMap.mpr ⟨x, hx, of_decide_eq_true hkey⟩) rfl

/-- The components of a person's businesses. -/
def QbiResult.componentsOf (r : QbiResult) (p : PersonIncome) : List QbiComponent :=
  r.components.filter fun c => c.linkId ∈ p.shares.map (·.linkId)

/-- A share that the deduction leaves out. -/
def QbiContext.excludes (q : QbiContext) (s : AllocatedShare) : Bool :=
  (exclusion s (q.entityByLink.get? s.linkId)).isSome

section Result

variable {params : QbiParams} {manual : Option Dec} {q : QbiContext}
  (hlinks : (q.persons.flatMap fun p => p.shares.map (·.linkId)).Nodup)
include hlinks

theorem componentsOf_attributable {p : PersonIncome} (hp : p ∈ q.persons) :
    ((computeQbi params manual q).componentsOf p).map (·.attributableDeductions) =
      p.shares.map fun s => if q.excludes s then 0 else q.attributed p s.linkId := by
  have hmine := filter_flatMap_keys (fun p : PersonIncome => p.shares.map (·.linkId))
    (fun p => p.shares.map (componentOf params q p)) (·.linkId) (fun p => by
      rw [List.map_map]
      exact List.map_congr_left fun s _ => componentOf_linkId) hlinks hp
  have hfinish : ∀ (live : List QbiComponent) (c : QbiComponent),
      (c.finish params q.taxableIncomeBeforeQbi live).linkId = c.linkId ∧
        (c.finish params q.taxableIncomeBeforeQbi live).attributableDeductions =
          c.attributableDeductions := by
    intro live c
    unfold QbiComponent.finish
    split_ifs
    · have h := net_limited c live params q.taxableIncomeBeforeQbi
      exact ⟨h.1, h.2.2.2.1⟩
    · exact ⟨rfl, rfl⟩
  unfold QbiResult.componentsOf computeQbi
  dsimp only
  generalize (qbiComponents params q).filter (·.eligible) = live
  have hkeep : ∀ c ∈ qbiComponents params q,
      ((fun c : QbiComponent => decide (c.linkId ∈ p.shares.map (·.linkId))) ∘
        QbiComponent.finish params q.taxableIncomeBeforeQbi live) c =
          decide (c.linkId ∈ p.shares.map (·.linkId)) := fun c _ => by
    rw [Function.comp_apply, (hfinish live c).1]
  rw [List.filter_map, List.map_map, List.filter_congr hkeep]
  rw [show (qbiComponents params q).filter (fun c => c.linkId ∈ p.shares.map (·.linkId)) = _ from
    hmine, List.map_map]
  refine List.map_congr_left fun s _ => ?_
  rw [Function.comp_apply, Function.comp_apply, (hfinish live _).2, componentOf_attributable]
  rfl

theorem shares_nodup {p : PersonIncome} (hp : p ∈ q.persons) : (p.shares.map (·.linkId)).Nodup :=
  (List.nodup_flatMap.mp hlinks).1 p hp

/-- What is taken out of a person's businesses and what fell to excluded ones. -/
theorem attributable_sum {p : PersonIncome} (hp : p ∈ q.persons) :
    (((computeQbi params manual q).componentsOf p).map (·.attributableDeductions)).sum +
      ((p.shares.filter q.excludes).map fun s => q.attributed p s.linkId).sum = q.taken p := by
  have hfilter : p.shares.filter q.excludes = p.shares.filter fun s => q.excludes s = true := by
    simp
  rw [componentsOf_attributable hlinks hp, hfilter, ← sum_map_ite, ← List.sum_map_add,
    ← attributed_sum (shares_nodup hlinks hp), List.map_map]
  refine congrArg List.sum (List.map_congr_left fun s _ => ?_)
  by_cases h : q.excludes s <;> simp [h]

theorem attributable_eq {p : PersonIncome} (hp : p ∈ q.persons)
    (heligible : ∀ s ∈ p.shares,
      s.linkId ∈ (seWeights p).map Prod.fst ++ (sehiWeights p).map Prod.fst →
        q.excludes s = false) :
    (((computeQbi params manual q).componentsOf p).map (·.attributableDeductions)).sum =
      q.taken p := by
  have hsum : (((computeQbi params manual q).componentsOf p).map (·.attributableDeductions)).sum +
      _ = q.taken p := attributable_sum hlinks hp
  have hzero : ((p.shares.filter q.excludes).map fun s => q.attributed p s.linkId).sum = 0 := by
    refine List.sum_eq_zero fun x hx => ?_
    obtain ⟨s, hs, rfl⟩ := List.mem_map.mp hx
    obtain ⟨hs, hexcluded⟩ := List.mem_filter.mp hs
    have hnot : s.linkId ∉ (seWeights p).map Prod.fst ++ (sehiWeights p).map Prod.fst := by
      intro hin
      rw [heligible s hs hin] at hexcluded
      cases hexcluded
    rw [List.mem_append, not_or] at hnot
    exact attributed_of_notMem (shares_nodup hlinks hp) hnot.1 hnot.2
  rw [hzero, add_zero] at hsum
  exact hsum

end Result

/-- The deduction's netting, limits and attributed deductions, where no link is named twice. Netting
keeps the total, but a gain keeps to its bounds only up to the rounding of the parts, and what falls
to an excluded business is not taken out. -/
theorem qbi_bounds (params : QbiParams) (manual : Option Dec) (q : QbiContext)
    (hlinks : (q.persons.flatMap fun p => p.shares.map (·.linkId)).Nodup) :
    (((computeQbi params manual q).live.map (·.qbiAfterNetting)).sum =
        max 0 (totalGain (computeQbi params manual q).live -
          totalLoss (computeQbi params manual q).live) ∧
      (computeQbi params manual q).netLossCarryforward =
        max 0 (totalLoss (computeQbi params manual q).live -
          totalGain (computeQbi params manual q).live)) ∧
    (∀ c ∈ (computeQbi params manual q).live,
      (0 < c.qbi → -nettingError (computeQbi params manual q).live c.linkId ≤ c.qbiAfterNetting ∧
        c.qbiAfterNetting ≤ c.qbi + nettingError (computeQbi params manual q).live c.linkId) ∧
      (c.qbi ≤ 0 → c.qbiAfterNetting = 0) ∧ c.Limited params q.taxableIncomeBeforeQbi) ∧
    ∀ p ∈ q.persons,
      (((computeQbi params manual q).componentsOf p).map (·.attributableDeductions)).sum +
          ((p.shares.filter q.excludes).map fun s => q.attributed p s.linkId).sum = q.taken p ∧
        ((∀ s ∈ p.shares, s.linkId ∈ (seWeights p).map Prod.fst ++ (sehiWeights p).map Prod.fst →
            q.excludes s = false) →
          (((computeQbi params manual q).componentsOf p).map (·.attributableDeductions)).sum =
            q.taken p) := by
  have hnd : (((qbiComponents params q).filter (·.eligible)).map (·.linkId)).Nodup := by
    rw [← qbiComponents_links params] at hlinks
    exact hlinks.sublist (List.filter_sublist.map _)
  have hmade : ∀ c ∈ (qbiComponents params q).filter (·.eligible),
      c.qbiAfterNetting = 0 ∧ c.wageUbiaLimit = none := fun c hc =>
    mem_qbiComponents (List.mem_filter.mp hc).1
  have hcarry : (computeQbi params manual q).netLossCarryforward =
      dFloorZero (totalLoss ((qbiComponents params q).filter (·.eligible)) -
        totalGain ((qbiComponents params q).filter (·.eligible))) := rfl
  rw [hcarry, computeQbi_live]
  revert hnd hmade
  generalize (qbiComponents params q).filter (·.eligible) = live
  intro hnd hmade
  have hqbi := fun c : QbiComponent => (net_limited c live params q.taxableIncomeBeforeQbi).2.2.1
  obtain ⟨hg, hl⟩ := totals_map hqbi live
  have hlink := fun c : QbiComponent => (net_limited c live params q.taxableIncomeBeforeQbi).1
  have herror : ∀ linkId, nettingError (live.map fun c =>
      (c.net live).limited params q.taxableIncomeBeforeQbi) linkId = nettingError live linkId := by
    intro linkId
    unfold nettingError
    rw [hl, gains_map hqbi, List.length_map, List.getLast?_map, Option.map_map]
    simp only [Function.comp_def, hlink]
  rw [hg, hl]
  simp only [herror]
  refine ⟨⟨?_, ?_⟩, ?_, fun p hp => ⟨attributable_sum hlinks hp, attributable_eq hlinks hp⟩⟩
  · rw [List.map_map, ← net_sum hnd fun c hc => (hmade c hc).1]
    exact congrArg List.sum (List.map_congr_left fun c _ =>
      (net_limited c live params q.taxableIncomeBeforeQbi).2.2.2.2.1)
  · rw [dFloorZero_eq, max_comm]
  · intro c' hc'
    obtain ⟨c, hc, rfl⟩ := List.mem_map.mp hc'
    obtain ⟨-, -, hkeep, -, hnet, hlimit⟩ := net_limited c live params q.taxableIncomeBeforeQbi
    rw [hkeep, hnet, hlink]
    refine ⟨net_bounds hnd hc, fun hle => ?_, ?_⟩
    · rw [QbiComponent.net, if_neg (not_lt.mpr hle)]
      split_ifs
      · rfl
      · exact (hmade c hc).1
    · exact QbiComponent.limited_spec (hlimit.trans (hmade c hc).2)

section Proprietor

def proprietorParams : QbiParams := ⟨1 / 5, 200000, 50000, 1 / 2, 1 / 4, 1 / 40, 1 / 5, 0, 0⟩

/-- A proprietor's businesses by link, the income of each and whether its link leaves it out. -/
def proprietor (halfSeTax : Dec) (businesses : List (Id × Dec × Option Bool)) : QbiContext where
  taxableIncomeBeforeQbi := 100000
  netCapitalGainWithQd := 0
  income :=
    { byPerson := [("carlos",
        { personIncome ⟨"carlos", .primary, 0, none⟩ with
          shares := businesses.map fun (linkId, ordinary, qbiEligible) =>
            { linkId, personId := "carlos", entityType := .schC, activityType := .active
              partnerSeStatus := none, isOfficer := false, profitFraction := 1, lossFraction := 1
              share := fun k => if k = .ordinary then ordinary else 0, guaranteedPayment := 0
              officerWages := 0, sehiAsW2Wages := 0, ownerSehi := 0, ownerRetirement := 0
              seIncome := ordinary, qbiEligible, activeParticipation := false
              allowedLossOverride := none } })]
      otherAboveTheLine := 0, itemizedOther := 0 }
  entities := []
  adjustments := []
  personDeductions := [("carlos", ⟨halfSeTax, 0, 0⟩)]
  section1231Net := 0

/-- Two gains and a loss, with an income in the middle of the phase-in. -/
def midway : QbiContext :=
  { proprietor 40 [("a", 300, none), ("b", -100, none), ("c", 100, none)] with
    taxableIncomeBeforeQbi := 225000 }

/-- The loss is netted, the self-employment tax is taken out, and without wages half is left. -/
theorem qbi_bounds_netted :
    (computeQbi proprietorParams none midway).live.map (fun c => (c.qbiAfterNetting, c.component)) =
        [(195, 39 / 2), (0, 0), (65, 13 / 2)] ∧
      ((computeQbi proprietorParams none midway).live.map (·.qbiAfterNetting)).sum = 260 ∧
      (∀ c ∈ (computeQbi proprietorParams none midway).live, c.Limited proprietorParams 225000) ∧
      midway.persons.map midway.taken = [40] ∧
      ∀ p ∈ midway.persons,
        (((computeQbi proprietorParams none midway).componentsOf p).map
          (·.attributableDeductions)).sum +
            ((p.shares.filter midway.excludes).map fun s => midway.attributed p s.linkId).sum =
              midway.taken p := by
  obtain ⟨⟨hsum, -⟩, hlimited, hpools⟩ :=
    qbi_bounds proprietorParams none midway (by decide +kernel)
  exact ⟨by decide +kernel, hsum.trans (by decide +kernel), fun c hc => (hlimited c hc).2.2,
    by decide +kernel, fun p hp => (hpools p hp).1⟩

/-- Netting leaves a gain less than nothing or more than it was, a link that is left out keeps the
deductions that fell to it, and a link named twice is netted twice by its last part. -/
theorem qbi_bounds_except :
    (∃ c ∈ (computeQbi proprietorParams none (proprietor 0 [("a", 10 ^ 10, none),
      ("b", 10 ^ 10, none), ("c", 10 ^ 10, none), ("d", 1 / 100, none),
      ("e", -29999999999.99, none)])).live, c.qbiAfterNetting < 0) ∧
    (∃ c ∈ (computeQbi proprietorParams none (proprietor 0 [("a", 10 ^ 10, none),
      ("b", 10 ^ 10, none), ("c", 10 ^ 10, none), ("d", 1 / 100, none),
      ("e", -1 / 50, none)])).live, 0 < c.qbi ∧ c.qbi < c.qbiAfterNetting) ∧
    ((computeQbi proprietorParams none (proprietor 7 [("a", 100, some false)])).components.map
      (·.attributableDeductions)).sum = 0 ∧
    ((computeQbi proprietorParams none (proprietor 0 [("a", 100, none), ("a", 300, none),
      ("b", -100, none)])).live.map (·.qbiAfterNetting)).sum = 250 := by
  decide +kernel

end Proprietor

end MyBooks
