import MyBooks.LossLimits
import MyBooks.OwnerAmounts

/-!
# Losses through the limitations

What is added back to a share is what its net rises by, as long as it is no more than its loss
(`addBackLoss_net`). What is suspended of the losers is handed out along what worksheet 5 asks of
each (`worksheet5_eq`), so all of it is suspended just where enough is asked for in all. The persons
follow their links (`limitedRows_moved`) and have the excess business loss added back
(`limitBusinessLoss_eq`).
-/

namespace MyBooks

section AddBack

variable {share out : CharacterAmounts} {k : IncomeCharacter} {amount v : Dec}

theorem sumCharacters_update (out : CharacterAmounts) (k : IncomeCharacter) (v : Dec) :
    sumCharacters (Function.update out k v) = sumCharacters out + (v - out k) := by
  cases k <;> simp [sumCharacters, incomeCharacters, Function.update] <;> ring

theorem addBackFrom_cons (capped negSum : Dec) (k k' : IncomeCharacter)
    (ks : List IncomeCharacter) (remaining : Dec) :
    addBackFrom share capped negSum (k :: k' :: ks) out remaining =
      addBackFrom share capped negSum (k' :: ks) (Function.update out k
        (share k + min remaining (dDiv (capped * |share k|) negSum)))
        (remaining - min remaining (dDiv (capped * |share k|) negSum)) := rfl

/-- The last negative character takes the rest. -/
theorem addBackFrom_sum (capped negSum : Dec) : ∀ (ks : List IncomeCharacter)
    (out : CharacterAmounts) (remaining : Dec), ks.Nodup → ks ≠ [] → (∀ k ∈ ks, out k = share k) →
    sumCharacters (addBackFrom share capped negSum ks out remaining) =
      sumCharacters out + remaining
  | [], _, _, _, hne, _ => absurd rfl hne
  | [k], out, remaining, _, _, hout => by
    rw [addBackFrom, sumCharacters_update, hout k List.mem_cons_self]
    ring
  | k :: k' :: ks, out, remaining, hnodup, _, hout => by
    obtain ⟨hk, hnodup⟩ := List.nodup_cons.mp hnodup
    have hrest : ∀ j ∈ k' :: ks, Function.update out k
        (share k + min remaining (dDiv (capped * |share k|) negSum)) j = share j := by
      intro j hj
      have hne : j ≠ k := fun h => hk (h ▸ hj)
      rw [Function.update_of_ne hne]
      exact hout j (List.mem_cons_of_mem _ hj)
    rw [addBackFrom_cons, addBackFrom_sum capped negSum (k' :: ks) _ _ hnodup
      (List.cons_ne_nil _ _) hrest, sumCharacters_update, hout k List.mem_cons_self]
    ring

theorem neg_negSum_le (share : CharacterAmounts) : -negSum share ≤ sumCharacters share := by
  have h : ∀ ks : List IncomeCharacter,
      -((ks.filter fun k => share k < 0).map fun k => |share k|).sum ≤ (ks.map share).sum := by
    intro ks
    induction ks with
    | nil => simp
    | cons k ks ih =>
      rw [List.filter_cons, List.map_cons, List.sum_cons]
      by_cases hk : share k < 0
      · simp only [hk, decide_true, if_true, List.map_cons, List.sum_cons, abs_of_neg]
        linarith
      · simp only [hk, decide_false]
        have := not_lt.mp hk
        simp only [Bool.false_eq_true, if_false]
        linarith
  exact h incomeCharacters

theorem addBackLoss_sum (share : CharacterAmounts) (amount : Dec) :
    sumCharacters (addBackLoss share amount) =
      sumCharacters share +
        if 0 < amount ∧ 0 < negSum share then min amount (negSum share) else 0 := by
  unfold addBackLoss
  split_ifs with h
  · have hne : negatives share ≠ [] := by
      intro hnil
      rw [negSum, hnil] at h
      simp at h
    have hnodup : incomeCharacters.Nodup := by decide
    exact addBackFrom_sum _ _ _ _ _ (hnodup.filter _) hne fun _ _ => rfl
  · rw [add_zero]

/-- The net of a share rises by what is added back, where that is no more than its loss. -/
theorem addBackLoss_net (h0 : 0 ≤ amount) (h : amount ≤ -sumCharacters share) :
    sumCharacters (addBackLoss share amount) = sumCharacters share + amount := by
  have hneg := neg_negSum_le share
  rw [addBackLoss_sum]
  split_ifs with hpos
  · rw [min_eq_left (by linarith)]
  · rcases h0.eq_or_lt with hzero | hlt
    · rw [hzero]
    · exact absurd ⟨hlt, by linarith⟩ hpos

end AddBack

section Worksheets

variable {used suspended remainingSum lossSum remaining : Dec} {ls : List Loser}

/-- An amount handed out along the amounts that are asked. -/
def handOut : Dec → List Dec → List Dec
  | _, [] => []
  | remaining, d :: ds => min remaining d :: handOut (remaining - min remaining d) ds

theorem length_handOut : ∀ (remaining : Dec) (ds : List Dec),
    (handOut remaining ds).length = ds.length
  | _, [] => rfl
  | remaining, d :: ds => by rw [handOut, List.length_cons, length_handOut, List.length_cons]

theorem handOut_nonneg : ∀ {ds : List Dec} {remaining : Dec}, (∀ d ∈ ds, 0 ≤ d) → 0 ≤ remaining →
    ∀ part ∈ handOut remaining ds, 0 ≤ part
  | [], _, _, _ => by simp [handOut]
  | d :: ds, remaining, h, h0 => by
    obtain ⟨hd, hds⟩ := List.forall_mem_cons.mp h
    exact List.forall_mem_cons.mpr ⟨le_min h0 hd,
      handOut_nonneg hds (sub_nonneg.mpr (min_le_left _ _))⟩

/-- All of it is handed out, or all that is demanded. -/
theorem handOut_sum : ∀ {ds : List Dec} {remaining : Dec}, (∀ d ∈ ds, 0 ≤ d) → 0 ≤ remaining →
    (handOut remaining ds).sum = min remaining ds.sum
  | [], remaining, _, h0 => by simp [handOut, h0]
  | d :: ds, remaining, h, h0 => by
    obtain ⟨hd, hds⟩ := List.forall_mem_cons.mp h
    have hrest : 0 ≤ ds.sum := List.sum_nonneg hds
    rw [handOut, List.sum_cons, handOut_sum hds (sub_nonneg.mpr (min_le_left _ _)), List.sum_cons]
    rcases le_total remaining d with hle | hle
    · rw [min_eq_left hle, sub_self, min_eq_left hrest, min_eq_left (by linarith), add_zero]
    · rw [min_eq_right hle, ← min_add_add_left, add_sub_cancel]

/-- What worksheet 5 asks of each loss that remains: its rounded share, of the last all of it. -/
def asked (suspended remainingSum : Dec) : List Dec → List Dec
  | [] => []
  | [loss] => [loss]
  | loss :: rest =>
    min loss (if 0 < remainingSum then dDiv (suspended * loss) remainingSum else 0) ::
      asked suspended remainingSum rest

theorem worksheet5_eq (suspended remainingSum : Dec) : ∀ (losses : List Dec) (remaining : Dec),
    worksheet5 suspended remainingSum remaining losses =
      handOut remaining (asked suspended remainingSum losses)
  | [], _ => rfl
  | [_], _ => rfl
  | loss :: loss' :: rest, remaining => by
    change _ :: worksheet5 suspended remainingSum _ (loss' :: rest) = _ :: handOut _ _
    rw [worksheet5_eq suspended remainingSum (loss' :: rest), min_assoc]

theorem dDiv_nonneg {a b : Dec} (ha : 0 ≤ a) (hb : 0 ≤ b) : 0 ≤ dDiv a b :=
  toPlaces_nonneg (div_nonneg ha hb)

theorem asked_nonneg (hsuspended : 0 ≤ suspended) : ∀ {losses : List Dec},
    (∀ loss ∈ losses, 0 ≤ loss) → ∀ d ∈ asked suspended remainingSum losses, 0 ≤ d
  | [], _ => by simp [asked]
  | [loss], h => by simpa [asked] using h
  | loss :: loss' :: rest, h => by
    obtain ⟨hloss, hrest⟩ := List.forall_mem_cons.mp h
    refine List.forall_mem_cons.mpr ⟨le_min hloss ?_, asked_nonneg hsuspended hrest⟩
    split_ifs with hpos
    · exact dDiv_nonneg (mul_nonneg hsuspended hloss) hpos.le
    · exact le_rfl

theorem length_asked : ∀ losses : List Dec,
    (asked suspended remainingSum losses).length = losses.length
  | [] => rfl
  | [_] => rfl
  | loss :: loss' :: rest => by
    change (asked suspended remainingSum (loss' :: rest)).length + 1 = _
    rw [length_asked (loss' :: rest)]
    rfl

theorem length_worksheet4 : ∀ (ls : List Loser) (allowanceLeft : Dec),
    (worksheet4 used lossSum allowanceLeft ls).length = ls.length
  | [], _ => rfl
  | l :: ls, allowanceLeft => by
    unfold worksheet4
    split_ifs <;> rw [List.length_cons, List.length_cons, length_worksheet4 ls]

/-- The allowance takes no more off a loss than it is. -/
theorem worksheet4_nonneg : ∀ {ls : List Loser} {allowanceLeft : Dec}, (∀ l ∈ ls, 0 ≤ l.loss) →
    ∀ loss ∈ worksheet4 used lossSum allowanceLeft ls, 0 ≤ loss
  | [], _, _ => by simp [worksheet4]
  | l :: ls, allowanceLeft, h => by
    obtain ⟨hl, hls⟩ := List.forall_mem_cons.mp h
    unfold worksheet4
    split_ifs
    · exact List.forall_mem_cons.mpr ⟨sub_nonneg.mpr (min_le_left _ _), worksheet4_nonneg hls⟩
    · exact List.forall_mem_cons.mpr ⟨sub_nonneg.mpr (min_le_right _ _), worksheet4_nonneg hls⟩
    · exact List.forall_mem_cons.mpr ⟨hl, worksheet4_nonneg hls⟩

/-- What is asked of each loser. -/
def askedOf (used suspended : Dec) (ls : List Loser) : List Dec :=
  let remaining := worksheet4 used (rentalLossSum ls) used ls
  asked suspended remaining.sum remaining

theorem suspendedParts_eq (used suspended : Dec) (ls : List Loser) :
    suspendedParts used suspended ls = handOut suspended (askedOf used suspended ls) :=
  worksheet5_eq _ _ _ _

theorem length_askedOf (used suspended : Dec) (ls : List Loser) :
    (askedOf used suspended ls).length = ls.length := by
  rw [askedOf, length_asked, length_worksheet4]

theorem askedOf_nonneg (hsuspended : 0 ≤ suspended) (hls : ∀ l ∈ ls, 0 ≤ l.loss) :
    ∀ d ∈ askedOf used suspended ls, 0 ≤ d :=
  asked_nonneg hsuspended (worksheet4_nonneg hls)

end Worksheets

section Works

variable {w : Work} {ws : List Work} {part : Dec} {parts : List Dec}

/-- A link's original net is its allowed net less what was disallowed and suspended, none of which
is negative or turns a loss into income. -/
structure Work.Fair (w : Work) : Prop where
  net : sumCharacters w.original = w.net - w.overrideDisallowed - w.passiveSuspended
  disallowed : 0 ≤ w.overrideDisallowed
  suspended : 0 ≤ w.passiveSuspended
  loss : sumCharacters w.original ≤ 0 → w.net ≤ 0

/-- Fair, with nothing suspended yet. -/
def Work.Unsuspended (w : Work) : Prop := w.Fair ∧ w.passiveSuspended = 0

theorem limitByOverride_share (w : Work) : w.limitByOverride.share = w.share := by
  unfold Work.limitByOverride
  split
  · rfl
  · split_ifs <;> rfl

theorem limitByOverride_original (w : Work) : w.limitByOverride.original = w.original := by
  unfold Work.limitByOverride
  split
  · rfl
  · split_ifs <;> rfl

theorem limitByOverride_unsuspended (s : AllocatedShare) :
    (Work.limitByOverride ⟨s, s.share, s.share, 0, 0⟩).Unsuspended := by
  have hfresh : Work.Unsuspended ⟨s, s.share, s.share, 0, 0⟩ :=
    ⟨⟨by simp [Work.net], le_rfl, le_rfl, id⟩, rfl⟩
  unfold Work.limitByOverride
  split
  · exact hfresh
  · rename_i override _
    split_ifs with h
    · exact hfresh
    · obtain ⟨hneg, hcap⟩ := not_or.mp h
      rw [not_not] at hneg
      have habs : |sumCharacters s.share| = -sumCharacters s.share := abs_of_neg hneg
      have hcap' : |override| < -sumCharacters s.share := by
        rw [← habs]
        exact not_le.mp hcap
      have hnet : sumCharacters (addBackLoss s.share (-sumCharacters s.share - |override|)) =
          -|override| := by
        rw [addBackLoss_net (by linarith) (by linarith [abs_nonneg override])]
        ring
      refine ⟨⟨?_, ?_, le_rfl, fun _ => ?_⟩, rfl⟩ <;> simp only [Work.net, habs]
      · rw [hnet]
        ring
      · linarith
      · rw [hnet]
        linarith [abs_nonneg override]

/-- Suspending a part of a loss is fair where it is no more than the loss. -/
theorem suspend_fair_iff (h : w.Unsuspended) (hneg : w.net < 0) (h0 : 0 ≤ part) :
    (w.suspend part).Fair ↔ part ≤ |w.net| := by
  obtain ⟨hfair, hnone⟩ := h
  have hnet := hfair.net
  rw [hnone, sub_zero] at hnet
  have hloss : sumCharacters w.original ≤ 0 := by linarith [hfair.disallowed]
  rw [abs_of_neg hneg]
  constructor
  · intro hsuspended
    have hafter := hsuspended.net
    have hle := hsuspended.loss hloss
    simp only [Work.suspend] at hafter hle
    linarith
  · intro hle
    have hafter : (w.suspend part).net = w.net + part := addBackLoss_net h0 hle
    refine ⟨?_, hfair.disallowed, h0, fun _ => ?_⟩
    · rw [hafter]
      simp only [Work.suspend]
      linarith
    · rw [hafter]
      linarith

theorem losers_cons_of (hw : w.isLoser = true) :
    losers (w :: ws) = ⟨w.activeRental, |w.net|⟩ :: losers ws := by
  rw [losers, List.filter_cons, if_pos hw, List.map_cons]
  rfl

theorem losers_cons_of_not (hw : ¬w.isLoser = true) : losers (w :: ws) = losers ws := by
  rw [losers, List.filter_cons, if_neg hw]
  rfl

/-- No part is more than its loser's loss. -/
def Fits : List Loser → List Dec → Prop
  | l :: ls, part :: parts => part ≤ l.loss ∧ Fits ls parts
  | _, _ => True

instance : ∀ (ls : List Loser) (parts : List Dec), Decidable (Fits ls parts)
  | [], _ => .isTrue trivial
  | _ :: _, [] => .isTrue trivial
  | l :: ls, part :: parts =>
    have := instDecidableFits ls parts
    inferInstanceAs (Decidable (part ≤ l.loss ∧ Fits ls parts))

theorem Fits.mono : ∀ {ls : List Loser} {parts parts' : List Dec},
    List.Forall₂ (· ≤ ·) parts' parts → Fits ls parts → Fits ls parts'
  | [], _, _, _, _ => trivial
  | _ :: _, _, _, .nil, _ => trivial
  | _ :: _, _, _, .cons hle hrest, h => ⟨hle.trans h.1, Fits.mono hrest h.2⟩

theorem handOut_le : ∀ (remaining : Dec) (ds : List Dec),
    List.Forall₂ (· ≤ ·) (handOut remaining ds) ds
  | _, [] => .nil
  | _, _ :: ds => .cons (min_le_right _ _) (handOut_le _ ds)

theorem asked_le (suspended remainingSum : Dec) : ∀ losses : List Dec,
    List.Forall₂ (· ≤ ·) (asked suspended remainingSum losses) losses
  | [] => .nil
  | [_] => .cons le_rfl .nil
  | _ :: loss' :: rest => .cons (min_le_left _ _) (asked_le suspended remainingSum (loss' :: rest))

/-- What the allowance is to cover of each active rental but the last, rounded. -/
def rentalCover (used lossSum : Dec) (ls : List Loser) : Dec :=
  ((ls.filter (·.activeRental)).dropLast.map fun l => min l.loss (dDiv (used * l.loss) lossSum)).sum

/-- Where the allowance is enough for these, it leaves no loser more than its loss. -/
theorem worksheet4_fits {used lossSum : Dec} (hused : 0 ≤ used) (hsum : 0 ≤ lossSum) :
    ∀ {ls : List Loser} {allowanceLeft : Dec}, (∀ l ∈ ls, 0 ≤ l.loss) →
      rentalCover used lossSum ls ≤ allowanceLeft → Fits ls (worksheet4 used lossSum allowanceLeft ls)
  | [], _, _, _ => trivial
  | l :: ls, allowanceLeft, h0, hcover => by
    obtain ⟨hl, hls⟩ := List.forall_mem_cons.mp h0
    unfold worksheet4
    by_cases hactive : l.activeRental = true
    · rw [if_pos hactive]
      rw [rentalCover, List.filter_cons, if_pos hactive] at hcover
      cases hrest : ls.filter (·.activeRental) with
      | nil =>
        have hnone : ls.any (·.activeRental) = false := by
          rw [List.any_eq_false]
          exact fun x hx hxa => List.not_mem_nil (hrest ▸ List.mem_filter.mpr ⟨hx, hxa⟩)
        rw [hrest] at hcover
        rw [hnone]
        have hleft : 0 ≤ allowanceLeft := hcover
        refine ⟨sub_le_self _ (le_min hleft hl), worksheet4_fits hused hsum hls ?_⟩
        rw [rentalCover, hrest]
        exact sub_nonneg.mpr (min_le_left _ _)
      | cons l' rest =>
        have hsome : ls.any (·.activeRental) = true := by
          have hmem : l' ∈ ls.filter (·.activeRental) := hrest ▸ List.mem_cons_self
          exact List.any_eq_true.mpr ⟨l', List.mem_filter.mp hmem⟩
        rw [hrest, List.dropLast_cons_cons, List.map_cons, List.sum_cons] at hcover
        rw [hsome]
        have hshare : 0 ≤ min l.loss (dDiv (used * l.loss) lossSum) :=
          le_min hl (dDiv_nonneg (mul_nonneg hused hl) hsum)
        refine ⟨sub_le_self _ hshare, worksheet4_fits hused hsum hls ?_⟩
        rw [rentalCover, hrest, if_pos rfl]
        linarith
    · rw [if_neg hactive]
      rw [rentalCover, List.filter_cons, if_neg hactive] at hcover
      exact ⟨le_rfl, worksheet4_fits hused hsum hls hcover⟩

/-- The limited works are fair just where the parts fit. -/
theorem suspendLosers_fair_iff : ∀ {ws : List Work} {parts : List Dec},
    parts.length = (losers ws).length → (∀ part ∈ parts, 0 ≤ part) → (∀ w ∈ ws, w.Unsuspended) →
    ((∀ w ∈ suspendLosers ws parts, w.Fair) ↔ Fits (losers ws) parts)
  | [], parts, _, _, _ => by simp [suspendLosers, losers, Fits]
  | w :: ws, parts, hlen, h0, hws => by
    obtain ⟨hw, hws⟩ := List.forall_mem_cons.mp hws
    rw [suspendLosers]
    by_cases hloser : w.isLoser = true
    · rw [if_pos hloser]
      rw [losers_cons_of hloser] at hlen ⊢
      obtain ⟨part, parts, rfl⟩ := List.exists_cons_of_length_eq_add_one hlen
      obtain ⟨hpart, hparts⟩ := List.forall_mem_cons.mp h0
      have hneg : w.net < 0 := by
        unfold Work.isLoser at hloser
        exact of_decide_eq_true (Bool.and_elim_right hloser)
      have ih := suspendLosers_fair_iff (Nat.succ_injective hlen) hparts hws
      simp only [List.forall_mem_cons, Fits, List.headD_cons, List.tail_cons]
      rw [suspend_fair_iff hw hneg hpart, ih]
    · rw [if_neg hloser]
      rw [losers_cons_of_not hloser] at hlen ⊢
      have ih := suspendLosers_fair_iff hlen h0 hws
      rw [List.forall_mem_cons, ih]
      exact ⟨And.right, fun h => ⟨hw.1, h⟩⟩

theorem suspendLosers_suspended : ∀ {ws : List Work} {parts : List Dec},
    parts.length = (losers ws).length → (∀ w ∈ ws, w.passiveSuspended = 0) →
    ((suspendLosers ws parts).map (·.passiveSuspended)).sum = parts.sum
  | [], parts, hlen, _ => by
    rw [List.length_eq_zero_iff.mp hlen]
    rfl
  | w :: ws, parts, hlen, hws => by
    obtain ⟨hw, hws⟩ := List.forall_mem_cons.mp hws
    rw [suspendLosers]
    by_cases hloser : w.isLoser = true
    · rw [if_pos hloser]
      rw [losers_cons_of hloser] at hlen
      obtain ⟨part, parts, rfl⟩ := List.exists_cons_of_length_eq_add_one hlen
      rw [List.map_cons, List.sum_cons, List.tail_cons,
        suspendLosers_suspended (Nat.succ_injective hlen) hws, List.sum_cons]
      rfl
    · rw [if_neg hloser]
      rw [losers_cons_of_not hloser] at hlen
      rw [List.map_cons, List.sum_cons, suspendLosers_suspended hlen hws, hw, zero_add]

theorem neg_of_isLoser (hw : w.isLoser = true) : w.net < 0 := by
  unfold Work.isLoser at hw
  exact of_decide_eq_true (Bool.and_elim_right hw)

theorem passive_of_isLoser (hw : w.isLoser = true) : w.passive = true := by
  unfold Work.isLoser at hw
  exact Bool.and_elim_left hw

/-- What fits is allowed less of the passive links. -/
theorem suspendLosers_net : ∀ {ws : List Work} {parts : List Dec},
    parts.length = (losers ws).length → (∀ part ∈ parts, 0 ≤ part) → Fits (losers ws) parts →
    (((suspendLosers ws parts).filter Work.passive).map Work.net).sum =
      ((ws.filter Work.passive).map Work.net).sum + parts.sum
  | [], parts, hlen, _, _ => by
    rw [List.length_eq_zero_iff.mp hlen]
    simp [suspendLosers]
  | w :: ws, parts, hlen, h0, hfits => by
    rw [suspendLosers]
    by_cases hloser : w.isLoser = true
    · rw [if_pos hloser]
      rw [losers_cons_of hloser] at hlen hfits
      obtain ⟨part, parts, rfl⟩ := List.exists_cons_of_length_eq_add_one hlen
      obtain ⟨hpart, hparts⟩ := List.forall_mem_cons.mp h0
      obtain ⟨hfit, hfits⟩ := hfits
      have hpassive := passive_of_isLoser hloser
      have hnet : (w.suspend part).net = w.net + part :=
        addBackLoss_net hpart (hfit.trans_eq (abs_of_neg (neg_of_isLoser hloser)))
      have hpassive' : (w.suspend part).passive = true := hpassive
      rw [List.headD_cons, List.tail_cons, List.filter_cons, if_pos hpassive', List.map_cons,
        List.sum_cons, hnet, suspendLosers_net (Nat.succ_injective hlen) hparts hfits,
        List.filter_cons, if_pos hpassive, List.map_cons, List.sum_cons, List.sum_cons]
      ring
    · rw [if_neg hloser]
      rw [losers_cons_of_not hloser] at hlen hfits
      have ih := suspendLosers_net hlen h0 hfits
      rw [List.filter_cons, List.filter_cons]
      split_ifs
      · rw [List.map_cons, List.sum_cons, ih, List.map_cons, List.sum_cons, add_assoc]
      · exact ih

theorem suspendLosers_map {β : Type*} (f : Work → β) (hf : ∀ w part, f (w.suspend part) = f w) :
    ∀ (ws : List Work) (parts : List Dec), (suspendLosers ws parts).map f = ws.map f
  | [], _ => rfl
  | w :: ws, parts => by
    rw [suspendLosers]
    split_ifs <;> rw [List.map_cons, suspendLosers_map f hf ws, List.map_cons]
    rw [hf]

end Works

section Passive

variable {ws : List Work} {n : PassiveNet}

theorem passiveNet_net (ws : List Work) :
    (passiveNet ws).passiveIncome - (passiveNet ws).passiveLosses =
      ((ws.filter Work.passive).map Work.net).sum := by
  have h : ∀ (ws : List Work) (n : PassiveNet),
      (ws.foldl .add n).passiveIncome - (ws.foldl .add n).passiveLosses =
        n.passiveIncome - n.passiveLosses + (ws.map Work.net).sum := by
    intro ws
    induction ws with
    | nil => simp
    | cons w ws ih =>
      intro n
      rw [List.foldl_cons, ih, List.map_cons, List.sum_cons]
      simp only [PassiveNet.add]
      split_ifs with hneg
      · rw [abs_of_neg hneg]
        ring
      · ring
  rw [passiveNet, h]
  simp

theorem eligibleLoss_nonneg (n : PassiveNet) : 0 ≤ n.eligibleLoss := by
  unfold PassiveNet.eligibleLoss
  split_ifs with h
  · exact le_min (dFloorZero_nonneg _) h.le
  · exact le_rfl

theorem afterPhaseOut_nonneg (a : RentalAllowance) (magi : Dec) : 0 ≤ a.afterPhaseOut magi := by
  unfold RentalAllowance.afterPhaseOut
  split_ifs with _ h
  · exact a.maximum_nonneg
  · exact le_rfl
  · obtain ⟨hstop, hstart⟩ := not_or.mp h
    exact dDiv_nonneg (mul_nonneg a.maximum_nonneg (by linarith)) (by linarith)

theorem rentalAllowance_used_nonneg (p : LossLimitParameters) (filingStatus : FilingStatus)
    (options : LossLimitationOptions) (n : PassiveNet) :
    0 ≤ (rentalAllowance p filingStatus options n).used := by
  unfold rentalAllowance
  split_ifs
  · split
    · exact le_rfl
    · exact le_min (eligibleLoss_nonneg n) (afterPhaseOut_nonneg _ _)
    · exact le_min (eligibleLoss_nonneg n) (afterPhaseOut_nonneg _ _)
    · exact le_rfl
  · exact le_rfl

end Passive

section Persons

variable {income : AggregatedIncome} {m : Entries Id PersonIncome}

/-- Each person is kept under their own id, once. -/
structure UnderOwnIds (m : Entries Id PersonIncome) : Prop where
  own : ∀ e ∈ m, e.2.personId = e.1
  nodup : m.keys.Nodup

theorem UnderOwnIds.set {key : Id} {p : PersonIncome} (h : UnderOwnIds m) (hp : p.personId = key) :
    UnderOwnIds (m.set key p) := by
  refine ⟨fun e he => ?_, Entries.nodup_keys_set h.nodup⟩
  have hget := (Entries.get?_eq_some (Entries.nodup_keys_set h.nodup)).mpr he
  rw [Entries.get?_set] at hget
  split_ifs at hget with hk
  · rw [← Option.some.inj hget, hp, hk]
  · exact h.own e (Entries.mem_of_get? hget)

theorem get_ownId {persons : List EnginePerson} {personId : Option Id} {key : Id}
    {p : PersonIncome} (h : UnderOwnIds income.byPerson)
    (hget : income.get persons personId = .ok (key, p)) : p.personId = key :=
  h.own _ (Entries.mem_of_get? (get_ok hget))

/-- Income is aggregated by person. -/
theorem aggregatePersons_underOwnIds {persons : List EnginePerson} {entities : List AllocatedEntity}
    {adjustments : List EngineAdjustment}
    (h : aggregatePersons entities persons adjustments = .ok income) :
    UnderOwnIds income.byPerson := by
  obtain ⟨income₁, hshares, h⟩ := bind_eq_ok.mp h
  have hstart : ∀ (persons : List EnginePerson) (m : Entries Id PersonIncome), UnderOwnIds m →
      UnderOwnIds (persons.foldl (fun m p => m.set p.personId (personIncome p)) m) := by
    intro persons
    induction persons with
    | nil => exact fun _ hm => hm
    | cons p persons ih => exact fun m hm => ih _ (hm.set rfl)
  have hshare : ∀ (income income' : AggregatedIncome) (s : AllocatedShare),
      UnderOwnIds income.byPerson → income.addShare persons s = .ok income' →
      UnderOwnIds income'.byPerson := by
    intro income income' s hk hs
    obtain ⟨⟨key, p⟩, hget, hs⟩ := bind_eq_ok.mp hs
    obtain rfl := pure_eq_ok.mp hs
    have hown : p.personId = key := get_ownId hk hget
    exact hk.set hown
  have hunlinked : ∀ (income income' : AggregatedIncome) (a : EngineAdjustment),
      UnderOwnIds income.byPerson → income.addUnlinked persons a = .ok income' →
      UnderOwnIds income'.byPerson := by
    intro income income' a hk ha
    obtain ⟨⟨key, p⟩, hget, ha⟩ := bind_eq_ok.mp ha
    obtain rfl := pure_eq_ok.mp ha
    refine hk.set ?_
    rw [← get_ownId hk hget]
    split_ifs
    · unfold PersonIncome.deduct
      split <;> rfl
    · rfl
  have h₁ := foldlM_keeps (fun income => UnderOwnIds income.byPerson)
    (fun s _ _ _ hk hs => hshare _ _ s hk hs)
    (hstart persons [] ⟨by simp, List.nodup_nil⟩) hshares
  exact foldlM_keeps (fun income => UnderOwnIds income.byPerson)
    (fun a _ _ _ hk ha => hunlinked _ _ a hk ha) h₁ h

/-- What the shares hold of a character. -/
def PersonIncome.shareTotal (p : PersonIncome) (k : IncomeCharacter) : Dec :=
  (p.shares.map fun s => s.share k).sum

theorem limit_shareTotal (p : PersonIncome) (ws : List Work) (k : IncomeCharacter) :
    (p.limit ws).shareTotal k = (ws.map fun w => w.current k).sum :=
  congrArg List.sum List.map_map

/-- A person's characters change by what their shares do. -/
theorem limit_character {p : PersonIncome} {ws : List Work} (hshares : ws.map (·.share) = p.shares)
    (horiginal : ∀ w ∈ ws, w.original = w.share.share) (k : IncomeCharacter) :
    (p.limit ws).character k =
      p.character k + ((p.limit ws).shareTotal k - p.shareTotal k) := by
  have h : ∀ (ws : List Work) (c : CharacterAmounts), (∀ w ∈ ws, w.original = w.share.share) →
      ws.foldl (fun character w => fun k => character k + (w.current k - w.original k)) c k =
        c k + ((ws.map fun w => w.current k).sum - (ws.map fun w => w.share.share k).sum) := by
    intro ws
    induction ws with
    | nil => simp
    | cons w ws ih =>
      intro c hws
      obtain ⟨hw, hws⟩ := List.forall_mem_cons.mp hws
      rw [List.foldl_cons, ih _ hws, hw, List.map_cons, List.sum_cons, List.map_cons, List.sum_cons]
      ring
  refine (h ws p.character horiginal).trans ?_
  rw [limit_shareTotal, PersonIncome.shareTotal, ← hshares, List.map_map]
  rfl

/-- The persons, each limited by the works of their own shares. -/
def limitedRows : Entries Id PersonIncome → List Work → Entries Id PersonIncome
  | [], _ => []
  | (key, p) :: persons, ws =>
    (key, p.limit (ws.take p.shares.length)) :: limitedRows persons (ws.drop p.shares.length)

theorem limitPersons_eq : ∀ {persons : Entries Id PersonIncome} (ws : List Work)
    (m : Entries Id PersonIncome), (∀ e ∈ persons, e.2.personId = e.1) →
    (m.keys ++ persons.keys).Nodup → limitPersons persons ws m = m ++ limitedRows persons ws
  | [], _, m, _, _ => (List.append_nil m).symm
  | (key, p) :: persons, ws, m, hown, hnodup => by
    obtain ⟨hkey, hown⟩ := List.forall_mem_cons.mp hown
    have hnew : p.personId ∉ m.keys := by
      intro hmem
      exact (List.nodup_append.mp hnodup).2.2 _ hmem _ List.mem_cons_self hkey
    rw [limitPersons, Entries.set_of_notMem hnew, limitPersons_eq _ _ hown, limitedRows,
      List.append_assoc, List.singleton_append, hkey]
    rw [hkey, Entries.keys, List.map_append, List.append_assoc]
    exact hnodup

/-- The works are those of the persons' shares, in order. -/
structure WorksOf (persons : Entries Id PersonIncome) (ws : List Work) : Prop where
  shares : ws.map (·.share) = persons.flatMap fun e => e.2.shares
  original : ∀ w ∈ ws, w.original = w.share.share

theorem WorksOf.cons {e : Id × PersonIncome} {persons : Entries Id PersonIncome} {ws : List Work}
    (h : WorksOf (e :: persons) ws) :
    (ws.take e.2.shares.length).map (·.share) = e.2.shares ∧
      WorksOf persons (ws.drop e.2.shares.length) := by
  have hshares := h.shares
  rw [List.flatMap_cons] at hshares
  refine ⟨?_, ?_, fun w hw => h.original w (List.mem_of_mem_drop hw)⟩
  · rw [List.map_take, hshares, List.take_left]
  · rw [List.map_drop, hshares, List.drop_left]

/-- Persons before and after the limitations, each with the other. -/
def Moved (addedBack : Id → Dec) (e e' : Id × PersonIncome) : Prop :=
  e'.1 = e.1 ∧ ∀ k, e'.2.character k =
    e.2.character k + (e'.2.shareTotal k - e.2.shareTotal k) +
      if k = .ordinary then addedBack e.1 else 0

theorem limitedRows_moved : ∀ {persons : Entries Id PersonIncome} {ws : List Work},
    WorksOf persons ws → List.Forall₂ (Moved fun _ => 0) persons (limitedRows persons ws)
  | [], _, _ => .nil
  | (key, p) :: persons, ws, h => by
    obtain ⟨hshares, hrest⟩ := h.cons
    have horiginal : ∀ w ∈ ws.take p.shares.length, w.original = w.share.share :=
      fun w hw => h.original w (List.mem_of_mem_take hw)
    refine .cons ⟨rfl, fun k => ?_⟩ (limitedRows_moved hrest)
    rw [limit_character hshares horiginal, ite_self, add_zero]

/-- The limited shares are those of the works. -/
theorem limitedRows_shares : ∀ {persons : Entries Id PersonIncome} {ws : List Work},
    WorksOf persons ws → (limitedRows persons ws).flatMap (fun e => e.2.shares) =
      ws.map fun w => { w.share with share := w.current }
  | [], ws, h => by
    have hnil := List.map_eq_nil_iff.mp h.shares
    rw [hnil]
    rfl
  | (key, p) :: persons, ws, h => by
    rw [limitedRows, List.flatMap_cons, limitedRows_shares h.cons.2]
    conv_rhs => rw [← List.take_append_drop p.shares.length ws, List.map_append]
    rfl

theorem limitedRows_underOwnIds : ∀ {persons : Entries Id PersonIncome} (ws : List Work),
    UnderOwnIds persons → (limitedRows persons ws).keys = persons.keys ∧
      ∀ e ∈ limitedRows persons ws, e.2.personId = e.1
  | [], _, _ => ⟨rfl, by simp [limitedRows]⟩
  | (key, p) :: persons, ws, h => by
    obtain ⟨hkey, hown⟩ := List.forall_mem_cons.mp h.own
    have hrest : UnderOwnIds persons := ⟨hown, (List.nodup_cons.mp h.nodup).2⟩
    obtain ⟨hkeys, howns⟩ := limitedRows_underOwnIds (ws.drop p.shares.length) hrest
    rw [limitedRows, Entries.keys_cons, hkeys]
    exact ⟨rfl, List.forall_mem_cons.mpr ⟨hkey, howns⟩⟩

end Persons

section ExcessBack

variable {m : Entries Id PersonIncome} {excess lossSum : Dec}

/-- A person with an amount added to their ordinary income. -/
def PersonIncome.raise (p : PersonIncome) (v : Dec) : PersonIncome :=
  { p with character := p.character.plus .ordinary v }

theorem plus_zero (c : CharacterAmounts) (k : IncomeCharacter) : c.plus k 0 = c := by
  rw [CharacterAmounts.plus, add_zero, Function.update_eq_self]

theorem plus_plus (c : CharacterAmounts) (k : IncomeCharacter) (v v' : Dec) :
    (c.plus k v).plus k v' = c.plus k (v + v') := by
  rw [CharacterAmounts.plus, CharacterAmounts.plus, CharacterAmounts.plus, Function.update_idem,
    Function.update_self, add_assoc]

theorem raise_zero (p : PersonIncome) : p.raise 0 = p := by
  rw [PersonIncome.raise, plus_zero]

theorem raise_character (p : PersonIncome) (v : Dec) (k : IncomeCharacter) :
    (p.raise v).character k = p.character k + if k = .ordinary then v else 0 := by
  change Function.update p.character .ordinary (p.character .ordinary + v) k = _
  split_ifs with hk
  · subst hk
    exact Function.update_self ..
  · rw [Function.update_of_ne hk, add_zero]

theorem raise_raise (p : PersonIncome) (v v' : Dec) : (p.raise v).raise v' = p.raise (v + v') := by
  rw [PersonIncome.raise, PersonIncome.raise, PersonIncome.raise, plus_plus]

theorem addOrdinary_eq (pid : Id) (part : Dec) : ∀ {m : Entries Id PersonIncome}, m.keys.Nodup →
    addOrdinary m pid part = m.map fun e => (e.1, e.2.raise (if e.1 = pid then part else 0))
  | [], _ => rfl
  | (key, p) :: m, h => by
    obtain ⟨hkey, hm⟩ := List.nodup_cons.mp h
    rw [List.map_cons]
    by_cases hpid : key = pid
    · subst hpid
      have hrest : (m.map fun e => (e.1, e.2.raise (if e.1 = key then part else 0))) = m := by
        conv_rhs => rw [← List.map_id m]
        refine List.map_congr_left fun e he => ?_
        have hne : e.1 ≠ key := fun heq => hkey (List.mem_map.mpr ⟨e, he, heq⟩)
        rw [if_neg hne, raise_zero]
        rfl
      rw [hrest, addOrdinary, Entries.get?_cons, if_pos rfl, if_pos rfl]
      simp only [Entries.set, if_true]
      rfl
    · rw [if_neg hpid, raise_zero, ← addOrdinary_eq pid part hm, addOrdinary, addOrdinary,
        Entries.get?_cons, if_neg hpid]
      cases Entries.get? m pid with
      | none => rfl
      | some p' => simp only [Entries.set, if_neg hpid]

/-- What of the excess goes back to a person. -/
def backTo (excess lossSum : Dec) : List (Id × Dec) → Dec → Id → Dec
  | [], _, _ => 0
  | [(pid, _)], remaining, key => if key = pid then remaining else 0
  | (pid, v) :: losers, remaining, key =>
    (if key = pid then dDiv (excess * |v|) lossSum else 0) +
      backTo excess lossSum losers (remaining - dDiv (excess * |v|) lossSum) key

theorem addExcessBack_eq : ∀ (losers : List (Id × Dec)) (remaining : Dec)
    {m : Entries Id PersonIncome}, m.keys.Nodup →
    addExcessBack excess lossSum losers remaining m =
      m.map fun e => (e.1, e.2.raise (backTo excess lossSum losers remaining e.1))
  | [], _, m, _ => by
    simp only [addExcessBack, backTo, raise_zero]
    exact (List.map_id m).symm
  | [(pid, v)], remaining, m, h => addOrdinary_eq pid remaining h
  | (pid, v) :: l :: losers, remaining, m, h => by
    have hmap := addOrdinary_eq pid (dDiv (excess * |v|) lossSum) h
    have hkeys : (addOrdinary m pid (dDiv (excess * |v|) lossSum)).keys = m.keys := by
      rw [hmap, Entries.keys, List.map_map]
      rfl
    change addExcessBack excess lossSum (l :: losers) _ (addOrdinary m pid _) = _
    rw [addExcessBack_eq (l :: losers) _ (hkeys ▸ h), hmap, List.map_map]
    refine List.map_congr_left fun e _ => ?_
    exact congrArg (Prod.mk e.1) (raise_raise _ _ _)

theorem sum_at {pid : Id} (v : Dec) : ∀ {ks : List Id}, ks.Nodup → pid ∈ ks →
    (ks.map fun key => if key = pid then v else 0).sum = v
  | key :: ks, h, hmem => by
    obtain ⟨hkey, hks⟩ := List.nodup_cons.mp h
    rw [List.map_cons, List.sum_cons]
    by_cases hpid : key = pid
    · subst hpid
      have hrest : ∀ key' ∈ ks, (if key' = key then v else 0) = (fun _ => (0 : Dec)) key' :=
        fun key' hmem' => if_neg fun heq : key' = key => hkey (heq ▸ hmem')
      rw [if_pos rfl, List.map_congr_left hrest]
      simp
    · rw [if_neg hpid, sum_at v hks ((List.mem_cons.mp hmem).resolve_left (Ne.symm hpid)), zero_add]

/-- All of it goes back. -/
theorem backTo_sum {ks : List Id} (h : ks.Nodup) : ∀ {losers : List (Id × Dec)} (remaining : Dec),
    losers ≠ [] → (∀ l ∈ losers, l.1 ∈ ks) →
    (ks.map (backTo excess lossSum losers remaining)).sum = remaining
  | [], _, hne, _ => absurd rfl hne
  | [(pid, v)], remaining, _, hmem => sum_at remaining h (hmem _ List.mem_cons_self)
  | (pid, v) :: l :: losers, remaining, _, hmem => by
    obtain ⟨hpid, hmem⟩ := List.forall_mem_cons.mp hmem
    change (ks.map fun key => (if key = pid then dDiv (excess * |v|) lossSum else 0) +
      backTo excess lossSum (l :: losers) (remaining - dDiv (excess * |v|) lossSum) key).sum = _
    rw [List.sum_map_add, sum_at _ h hpid, backTo_sum h _ (List.cons_ne_nil _ _) hmem]
    ring

theorem businessByPerson_eq (h : UnderOwnIds m) :
    businessByPerson m = m.map fun e => (e.1, e.2.businessNet) := by
  have hids : (m.map fun e => e.2.personId) = m.keys := List.map_congr_left h.own
  have hset := Entries.foldl_set_of_nodup (fun e : Id × PersonIncome => e.2.personId)
    (fun e => e.2.businessNet) m [] (by rw [hids]; exact h.nodup)
  rw [businessByPerson, hset, List.nil_append]
  exact List.map_congr_left fun e he => by rw [h.own e he]

theorem excessBusinessLoss_nonneg (threshold businessNet : Dec) :
    0 ≤ excessBusinessLoss threshold businessNet := by
  unfold excessBusinessLoss
  split_ifs
  · exact dFloorZero_nonneg _
  · exact le_rfl

/-- The excess business loss goes back to persons, and no more or less than it. -/
theorem limitBusinessLoss_eq (h : UnderOwnIds m) (h0 : 0 ≤ excess)
    (hloss : 0 < excess → (m.map fun e => e.2.businessNet).sum < 0) :
    ∃ addedBack : Id → Dec, (m.keys.map addedBack).sum = excess ∧
      limitBusinessLoss excess m = m.map fun e => (e.1, e.2.raise (addedBack e.1)) := by
  rw [limitBusinessLoss, businessByPerson_eq h]
  split_ifs with hpos
  · refine ⟨_, backTo_sum h.nodup excess ?_ ?_, addExcessBack_eq _ _ h.nodup⟩
    · intro hnil
      have hall := List.filter_eq_nil_iff.mp hnil
      have hsum : 0 ≤ (m.map fun e => e.2.businessNet).sum := by
        refine List.sum_nonneg fun net hnet => ?_
        obtain ⟨e, he, rfl⟩ := List.mem_map.mp hnet
        have hnot := hall (e.1, e.2.businessNet) (List.mem_map.mpr ⟨e, he, rfl⟩)
        exact not_lt.mp (by simpa using hnot)
      exact absurd (hloss hpos) (not_lt.mpr hsum)
    · intro l hl
      obtain ⟨e, he, rfl⟩ := List.mem_map.mp (List.mem_of_mem_filter hl)
      exact List.mem_map.mpr ⟨e, he, rfl⟩
  · refine ⟨fun _ => 0, ?_, ?_⟩
    · rw [← h0.antisymm (not_lt.mp hpos)]
      simp
    · simp only [raise_zero]
      exact (List.map_id m).symm

end ExcessBack

section Conserved

variable {p : LossLimitParameters} {filingStatus : FilingStatus} {options : LossLimitationOptions}
  {income : AggregatedIncome}

/-- Every loss is allowed, disallowed or suspended, and the persons have what their links have. -/
structure Conserved (income : AggregatedIncome) (r : LossLimitationExact) : Prop where
  links : ∀ s ∈ r.shares, s.net = s.allowed - s.overrideDisallowed - s.passiveSuspended ∧
    0 ≤ s.overrideDisallowed ∧ 0 ≤ s.passiveSuspended ∧ (s.net ≤ 0 → s.allowed ≤ 0)
  suspended : (r.shares.map (·.passiveSuspended)).sum = r.suspendedPassiveLoss
  passive : -r.rentalAllowance.used ≤ ((r.shares.filter (·.passive)).map (·.allowed)).sum
  before : (r.shares.map fun s => (s.linkId, s.net)) =
    income.byPerson.flatMap fun e => e.2.shares.map fun s => (s.linkId, sumCharacters s.share)
  after : (r.shares.map fun s => (s.linkId, s.allowed)) =
    r.income.byPerson.flatMap fun e => e.2.shares.map fun s => (s.linkId, sumCharacters s.share)
  persons : ∃ addedBack : Id → Dec, (income.byPerson.keys.map addedBack).sum =
    r.excessBusinessLoss ∧ List.Forall₂ (Moved addedBack) income.byPerson r.income.byPerson

/-- The works, their losses at most their overrides. -/
def overridden (income : AggregatedIncome) : List Work :=
  (works income).map Work.limitByOverride

/-- The allowance that active rentals take. -/
def allowanceUsed (p : LossLimitParameters) (filingStatus : FilingStatus)
    (options : LossLimitationOptions) (income : AggregatedIncome) : Dec :=
  (rentalAllowance p filingStatus options (passiveNet (overridden income))).used

/-- The passive losses over the passive income and the allowance. -/
def unallowed (p : LossLimitParameters) (filingStatus : FilingStatus)
    (options : LossLimitationOptions) (income : AggregatedIncome) : Dec :=
  -(((overridden income).filter Work.passive).map Work.net).sum -
    allowanceUsed p filingStatus options income

/-- The rounded shares of the active rentals before the last come to more than the allowance. -/
def Overdrawn (used : Dec) (ls : List Loser) : Prop := used < rentalCover used (rentalLossSum ls) ls

/-- The losers are asked for all that is unallowed, and where the allowance is overdrawn none of them
for more than its own loss. -/
structure Covered (used suspended : Dec) (ls : List Loser) : Prop where
  reached : suspended ≤ (askedOf used suspended ls).sum
  fits : Overdrawn used ls → Fits ls (handOut suspended (askedOf used suspended ls))

theorem Covered.all_fit {used suspended : Dec} {ls : List Loser} (h : Covered used suspended ls)
    (hused : 0 ≤ used) (hls : ∀ l ∈ ls, 0 ≤ l.loss) :
    Fits ls (handOut suspended (askedOf used suspended ls)) := by
  by_cases hover : Overdrawn used ls
  · exact h.fits hover
  · have hsum : 0 ≤ rentalLossSum ls := List.sum_nonneg (List.forall_mem_map.mpr fun l hl =>
      hls l (List.mem_of_mem_filter hl))
    exact ((worksheet4_fits hused hsum hls (not_lt.mp hover)).mono (asked_le _ _ _)).mono
      (handOut_le _ _)

theorem overridden_unsuspended : ∀ w ∈ overridden income, w.Unsuspended := by
  intro w hw
  obtain ⟨w', hw', rfl⟩ := List.mem_map.mp hw
  obtain ⟨e, -, hw'⟩ := List.mem_flatMap.mp hw'
  obtain ⟨s, -, rfl⟩ := List.mem_map.mp hw'
  exact limitByOverride_unsuspended s

theorem overridden_worksOf (income : AggregatedIncome) :
    WorksOf income.byPerson (overridden income) := by
  have hshare : ∀ ws : List Work, (ws.map Work.limitByOverride).map (·.share) = ws.map (·.share) :=
    fun ws => by
      rw [List.map_map]
      exact List.map_congr_left fun w _ => limitByOverride_share w
  refine ⟨?_, fun w hw => ?_⟩
  · rw [overridden, hshare, works, List.map_flatMap]
    simp only [List.map_map, Function.comp_def, List.map_id']
  · obtain ⟨w', hw', rfl⟩ := List.mem_map.mp hw
    obtain ⟨e, -, hw'⟩ := List.mem_flatMap.mp hw'
    obtain ⟨s, -, rfl⟩ := List.mem_map.mp hw'
    rw [limitByOverride_original, limitByOverride_share]

/-- The works after the limitations. -/
def limitedWorks (p : LossLimitParameters) (filingStatus : FilingStatus)
    (options : LossLimitationOptions) (income : AggregatedIncome) : List Work :=
  let used := allowanceUsed p filingStatus options income
  let suspended := dFloorZero ((passiveNet (overridden income)).excess - used)
  if 0 < suspended then
    suspendLosers (overridden income)
      (suspendedParts used suspended (losers (overridden income)))
  else overridden income

theorem limitedWorks_worksOf :
    WorksOf income.byPerson (limitedWorks p filingStatus options income) := by
  have h := overridden_worksOf income
  unfold limitedWorks
  simp only
  split_ifs
  · refine ⟨(suspendLosers_map _ (fun _ _ => rfl) _ _).trans h.shares, fun w hw => ?_⟩
    have hmem := List.mem_map_of_mem (f := fun w : Work => (w.original, w.share)) hw
    rw [suspendLosers_map _ (fun _ _ => rfl)] at hmem
    obtain ⟨w', hw', heq⟩ := List.mem_map.mp hmem
    obtain ⟨horiginal, hshare⟩ := Prod.mk.inj heq
    rw [← horiginal, ← hshare]
    exact h.original w' hw'
  · exact h

/-- What is suspended is what is unallowed, if anything is. -/
theorem suspended_eq : dFloorZero ((passiveNet (overridden income)).excess -
    allowanceUsed p filingStatus options income) =
      max (unallowed p filingStatus options income) 0 := by
  have hused := rentalAllowance_used_nonneg p filingStatus options (passiveNet (overridden income))
  have hnet := passiveNet_net (overridden income)
  change 0 ≤ allowanceUsed p filingStatus options income at hused
  rw [dFloorZero_eq, PassiveNet.excess, dFloorZero_eq, unallowed, ← hnet, neg_sub]
  rcases le_total ((passiveNet (overridden income)).passiveLosses -
    (passiveNet (overridden income)).passiveIncome) 0 with hle | hle
  · rw [max_eq_right hle, max_eq_right (by linarith), max_eq_right (by linarith)]
  · rw [max_eq_left hle]

/-- The persons and their shares keep step, whatever is suspended. -/
theorem persons_moved (p : LossLimitParameters) (filingStatus : FilingStatus)
    (options : LossLimitationOptions) (h : UnderOwnIds income.byPerson) :
    (∃ addedBack : Id → Dec, (income.byPerson.keys.map addedBack).sum =
        (applyLossLimitations p filingStatus options income).excessBusinessLoss ∧
      List.Forall₂ (Moved addedBack) income.byPerson
        (applyLossLimitations p filingStatus options income).income.byPerson) ∧
    (applyLossLimitations p filingStatus options income).income.byPerson.flatMap
        (fun e => e.2.shares) =
      (limitedWorks p filingStatus options income).map fun w =>
        { w.share with share := w.current } := by
  have hworks : WorksOf income.byPerson (limitedWorks p filingStatus options income) :=
    limitedWorks_worksOf
  obtain ⟨hkeys, hown⟩ :=
    limitedRows_underOwnIds (limitedWorks p filingStatus options income) h
  have hrows := limitPersons_eq (limitedWorks p filingStatus options income) [] h.own h.nodup
  rw [List.nil_append] at hrows
  have hkeyed : UnderOwnIds
      (limitedRows income.byPerson (limitedWorks p filingStatus options income)) :=
    ⟨hown, hkeys ▸ h.nodup⟩
  have hresult : (applyLossLimitations p filingStatus options income).income.byPerson =
      limitBusinessLoss (applyLossLimitations p filingStatus options income).excessBusinessLoss
        (limitedRows income.byPerson (limitedWorks p filingStatus options income)) := by
    rw [← hrows]
    rfl
  have hexcess : 0 ≤ (applyLossLimitations p filingStatus options income).excessBusinessLoss :=
    excessBusinessLoss_nonneg _ _
  obtain ⟨addedBack, hsum, heq⟩ := limitBusinessLoss_eq hkeyed hexcess fun hpos => by
    rw [← hrows]
    by_contra hneg
    exact absurd hpos (not_lt.mpr (if_neg hneg).le)
  rw [hresult, heq]
  constructor
  · refine ⟨addedBack, hkeys ▸ hsum, List.forall₂_map_right_iff.mpr ?_⟩
    refine (limitedRows_moved hworks).imp fun e e' hmoved => ⟨hmoved.1, fun k => ?_⟩
    have hchar := hmoved.2 k
    rw [ite_self, add_zero] at hchar
    rw [← hmoved.1]
    exact (raise_character _ _ k).trans (congrArg (· + _) hchar)
  · rw [List.flatMap_map, ← limitedRows_shares hworks]
    rfl

/-- The losses are conserved where each link's is, and all that is unallowed is suspended. -/
theorem conserved_iff (h : UnderOwnIds income.byPerson) :
    Conserved income (applyLossLimitations p filingStatus options income) ↔
      (∀ w ∈ limitedWorks p filingStatus options income, w.Fair) ∧
      ((limitedWorks p filingStatus options income).map (·.passiveSuspended)).sum =
        max (unallowed p filingStatus options income) 0 ∧
      -allowanceUsed p filingStatus options income ≤
        (((limitedWorks p filingStatus options income).filter Work.passive).map Work.net).sum := by
  have hshares : (applyLossLimitations p filingStatus options income).shares =
      (limitedWorks p filingStatus options income).map Work.result := rfl
  have hsuspended : (applyLossLimitations p filingStatus options income).suspendedPassiveLoss =
      max (unallowed p filingStatus options income) 0 := suspended_eq
  have hused : (applyLossLimitations p filingStatus options income).rentalAllowance.used =
      allowanceUsed p filingStatus options income := rfl
  have hfair : ∀ w : Work, w.Fair ↔ w.result.net = w.result.allowed -
      w.result.overrideDisallowed - w.result.passiveSuspended ∧ 0 ≤ w.result.overrideDisallowed ∧
      0 ≤ w.result.passiveSuspended ∧ (w.result.net ≤ 0 → w.result.allowed ≤ 0) :=
    fun w => ⟨fun ⟨h₁, h₂, h₃, h₄⟩ => ⟨h₁, h₂, h₃, h₄⟩, fun ⟨h₁, h₂, h₃, h₄⟩ => ⟨h₁, h₂, h₃, h₄⟩⟩
  obtain ⟨hpersons, hafter⟩ := persons_moved p filingStatus options h
  constructor
  · intro hc
    have hlinks := hc.links
    have hsum := hc.suspended
    have hpassive := hc.passive
    rw [hshares] at hlinks hsum hpassive
    rw [hsuspended, List.map_map] at hsum
    rw [hused, List.filter_map, List.map_map] at hpassive
    exact ⟨fun w hw => (hfair w).mpr (hlinks _ (List.mem_map_of_mem hw)), hsum, hpassive⟩
  · rintro ⟨hlinks, hsum, hpassive⟩
    have hworks : WorksOf income.byPerson (limitedWorks p filingStatus options income) :=
      limitedWorks_worksOf
    refine ⟨?_, ?_, ?_, ?_, ?_, hpersons⟩
    · rw [hshares]
      exact List.forall_mem_map.mpr fun w hw => (hfair w).mp (hlinks w hw)
    · rw [hshares, hsuspended, List.map_map]
      exact hsum
    · rw [hshares, hused, List.filter_map, List.map_map]
      exact hpassive
    · rw [hshares, ← List.map_flatMap, ← hworks.shares, List.map_map, List.map_map]
      refine List.map_congr_left fun w hw => ?_
      change (w.share.linkId, sumCharacters w.original) = _
      rw [hworks.original w hw]
      rfl
    · rw [← List.map_flatMap, hafter, hshares, List.map_map, List.map_map]
      rfl

/-- The limitations conserve every loss just where nothing is unallowed, or the losers are asked for
all that is. -/
theorem losses_conserved (p : LossLimitParameters) (filingStatus : FilingStatus)
    (options : LossLimitationOptions) (income : AggregatedIncome)
    (h : UnderOwnIds income.byPerson) :
    Conserved income (applyLossLimitations p filingStatus options income) ↔
      unallowed p filingStatus options income ≤ 0 ∨
      Covered (allowanceUsed p filingStatus options income)
        (unallowed p filingStatus options income) (losers (overridden income)) := by
  have hfresh := @overridden_unsuspended income
  have hzero : ∀ w ∈ overridden income, w.passiveSuspended = 0 := fun w hw => (hfresh w hw).2
  rw [conserved_iff h, limitedWorks, suspended_eq]
  rcases le_or_gt (unallowed p filingStatus options income) 0 with hnone | hsome
  · rw [max_eq_right hnone]
    simp only [lt_irrefl, if_false]
    refine ⟨fun _ => .inl hnone, fun _ => ⟨fun w hw => (hfresh w hw).1, ?_, ?_⟩⟩
    · rw [List.map_congr_left hzero]
      simp
    · unfold unallowed at hnone
      linarith
  · rw [max_eq_left hsome.le]
    simp only [if_pos hsome, suspendedParts_eq]
    have hlosses : ∀ l ∈ losers (overridden income), 0 ≤ l.loss := by
      intro l hl
      obtain ⟨w, -, rfl⟩ := List.mem_map.mp hl
      exact abs_nonneg _
    have hasked : ∀ d ∈ askedOf (allowanceUsed p filingStatus options income)
        (unallowed p filingStatus options income) (losers (overridden income)), 0 ≤ d :=
      askedOf_nonneg hsome.le hlosses
    have hlen : (handOut (unallowed p filingStatus options income)
        (askedOf (allowanceUsed p filingStatus options income)
          (unallowed p filingStatus options income) (losers (overridden income)))).length =
        (losers (overridden income)).length := by
      rw [length_handOut, length_askedOf]
    have hparts := handOut_nonneg hasked hsome.le
    rw [suspendLosers_fair_iff hlen hparts hfresh, suspendLosers_suspended hlen hzero,
      handOut_sum hasked hsome.le, min_eq_left_iff]
    constructor
    · rintro ⟨hfits, hreached, -⟩
      exact .inr ⟨hreached, fun _ => hfits⟩
    · rintro (hle | hcovered)
      · exact absurd hsome (not_lt.mpr hle)
      · have hreached := hcovered.reached
        have hfits := hcovered.all_fit (rentalAllowance_used_nonneg _ _ _ _) hlosses
        refine ⟨hfits, hreached, ?_⟩
        rw [suspendLosers_net hlen hparts hfits, handOut_sum hasked hsome.le,
          min_eq_left hreached, unallowed]
        linarith

/-- A link's share of ordinary income. -/
def activityShare (linkId : Id) (activityType : ActivityType) (ordinary : Dec) :
    AllocatedShare where
  linkId := linkId
  personId := "alex"
  entityType := .partnership
  activityType := activityType
  partnerSeStatus := some .limited
  isOfficer := false
  profitFraction := 1
  lossFraction := 1
  share k := if k = .ordinary then ordinary else 0
  guaranteedPayment := 0
  officerWages := 0
  sehiAsW2Wages := 0
  ownerSehi := 0
  ownerRetirement := 0
  seIncome := 0
  qbiEligible := none
  activeParticipation := true
  allowedLossOverride := none

/-- The income of one person with some shares. -/
def activityIncome (shares : List AllocatedShare) : AggregatedIncome :=
  ⟨[("alex", shares.foldl .addShare (personIncome ⟨"alex", .primary, 0, none⟩))], 0, 0⟩

def rentalParameters : LossLimitParameters where
  standard := ⟨25000, 100000, 150000, by decide⟩
  mfsLivingApart := ⟨12500, 50000, 75000, by decide⟩
  eblMfj := 626000
  eblStandard := 313000

/-- A loss of one and one of two, with income of one, are suspended for two. -/
theorem lakeHouse_conserved : Conserved
    (activityIncome [activityShare "farm" .passive (-1), activityShare "shop" .passive 1,
      activityShare "lake" .passive (-2)])
    (applyLossLimitations rentalParameters .single ⟨none, false⟩
      (activityIncome [activityShare "farm" .passive (-1), activityShare "shop" .passive 1,
        activityShare "lake" .passive (-2)])) :=
  (losses_conserved rentalParameters .single ⟨none, false⟩ _ ⟨by decide, by decide⟩).mpr
    (.inr ⟨by decide +kernel, fun _ => by decide +kernel⟩)

/-- The last loser is a rental with its loss allowed, so it takes none of the rest: of one
suspended, the other losses have 0.333333333333 each. -/
theorem thirds_notConserved : ¬Conserved
    (activityIncome [activityShare "farm" .passive (-1), activityShare "shop" .passive (-1),
      activityShare "mill" .passive (-1), activityShare "bank" .passive 2,
      activityShare "lake" .rental (-1)])
    (applyLossLimitations rentalParameters .single ⟨some 0, false⟩
      (activityIncome [activityShare "farm" .passive (-1), activityShare "shop" .passive (-1),
        activityShare "mill" .passive (-1), activityShare "bank" .passive 2,
        activityShare "lake" .rental (-1)])) := by
  intro h
  have hsum := h.suspended
  revert hsum
  decide +kernel

end Conserved

end MyBooks
