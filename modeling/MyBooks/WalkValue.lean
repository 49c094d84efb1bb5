import MyBooks.Walk
import MyBooks.Result

/-!
# The value of the stock ledger is conserved

What one row does to the running state (`stepRow_spec`), and from it what a walk of recomputed
rows does: no quotient of it has a zero divisor, the quantities and the values of its rows add up
to its final state, and in whole cents it stays in whole cents (`walk_conserves`).
-/

namespace MyBooks

theorem dividedBy_ok {a b : Dec} (h : b ≠ 0) : dividedBy a b = .ok (a / b) := if_neg h

@[simp] theorem dividedBy_eq_ok {a b c : Dec} : dividedBy a b = .ok c ↔ b ≠ 0 ∧ a / b = c := by
  unfold dividedBy
  split_ifs with h <;> simp [h]

section Row

variable (s : WalkState)

theorem reliefAtCost_ok (q : Dec) (fb : Option Dec) : ∃ v, reliefAtCost s q fb = .ok v := by
  unfold reliefAtCost
  split_ifs with h
  · simp [dividedBy_ok h.1.ne']
  · exact ⟨_, rfl⟩
  · exact ⟨_, rfl⟩

theorem inflowAtCost_ok (r : Dec) (fb : Option Dec) : ∃ v, inflowAtCost s r fb = .ok v := by
  unfold inflowAtCost
  split_ifs with h
  · simp [dividedBy_ok h.ne']
  · exact ⟨_, rfl⟩

theorem rowValue_ok (row : WalkRow) : ∃ v, rowValue s row = .ok v := by
  unfold rowValue
  split_ifs
  · exact ⟨_, rfl⟩
  · obtain ⟨v, hv⟩ := reliefAtCost_ok s (-row.quantity) row.fallbackCost
    exact ⟨-v, by rw [hv]; rfl⟩
  · exact inflowAtCost_ok s _ _
  · exact ⟨0, rfl⟩

theorem rowCorrection_ok (qty value : Dec) : ∃ c, rowCorrection s qty value = .ok c := by
  unfold rowCorrection
  split_ifs with h
  · have hs : -s.q ≠ 0 := by linarith [h.2]
    simp [dividedBy_ok h.1.ne', dividedBy_ok hs]
  · exact ⟨0, rfl⟩

theorem lastCost_ok (q v : Dec) : ∃ l, lastCost s q v = .ok l := by
  unfold lastCost
  split_ifs with h
  · simp [dividedBy_ok h.1.ne']
  · exact ⟨s.l, rfl⟩

variable {s}

theorem reliefAtCost_cents {q v : Dec} {fb : Option Dec} (hs : Cents s.v)
    (h : reliefAtCost s q fb = .ok v) : Cents v := by
  unfold reliefAtCost at h
  split_ifs at h <;> simp only [bind_eq_ok, pure_eq_ok] at h
  · obtain ⟨_, -, rfl⟩ := h
    exact Cents.round2 _
  · rw [← h]
    exact hs.add (Cents.round2 _)
  · rw [← h]
    exact Places.zero.add (Cents.round2 _)

theorem inflowAtCost_cents {r v : Dec} {fb : Option Dec} (h : inflowAtCost s r fb = .ok v) :
    Cents v := by
  unfold inflowAtCost at h
  split_ifs at h <;> simp only [bind_eq_ok, pure_eq_ok] at h
  · obtain ⟨_, -, rfl⟩ := h
    exact Cents.round2 _
  · rw [← h]
    exact Cents.round2 _

theorem rowValue_cents {row : WalkRow} {v : Dec} (hs : Cents s.v)
    (hg : row.valueMode = .given → Cents (row.given.getD 0)) (h : rowValue s row = .ok v) :
    Cents v := by
  unfold rowValue at h
  split_ifs at h with hm
  · rw [← pure_eq_ok.mp h]
    exact hg hm
  · obtain ⟨r, hr, h⟩ := bind_eq_ok.mp h
    rw [← pure_eq_ok.mp h]
    exact (reliefAtCost_cents hs hr).neg
  · exact inflowAtCost_cents h
  · rw [← pure_eq_ok.mp h]
    exact Places.zero

theorem rowCorrection_cents {qty value c : Dec} (h : rowCorrection s qty value = .ok c) :
    Cents c := by
  unfold rowCorrection at h
  split_ifs at h
  · simp only [bind_eq_ok, pure_eq_ok] at h
    obtain ⟨_, -, _, -, rfl⟩ := h
    exact ((Cents.round2 _).sub (Cents.round2 _)).neg
  · rw [← pure_eq_ok.mp h]
    exact Places.zero

theorem rowCorrection_ne_zero {qty value c : Dec} (h : rowCorrection s qty value = .ok c)
    (hc : c ≠ 0) : 0 < qty ∧ s.q < 0 := by
  unfold rowCorrection at h
  split_ifs at h with hq
  · exact hq
  · exact absurd (pure_eq_ok.mp h).symm hc

end Row

/-- What a row does to the state before it. -/
structure RowSpec (s : WalkState) (row : WalkRow) (fig : RowFigures) (after : WalkState) :
    Prop where
  onHand : after.q = s.q + row.quantity
  value : after.v = s.v + (fig.value + fig.correction + fig.residual)
  empty : after.q = 0 → after.v = 0
  correction : fig.correction ≠ 0 → 0 < row.quantity ∧ s.q < 0
  residual : fig.residual ≠ 0 → after.q = 0

/-- The figures of a row and the value it leaves are whole cents. -/
structure RowCents (fig : RowFigures) (after : WalkState) : Prop where
  value : Cents fig.value
  correction : Cents fig.correction
  residual : Cents fig.residual
  after : Cents after.v

theorem stepRow_total (s : WalkState) (row : WalkRow) : ∃ r, stepRow s row = .ok r := by
  obtain ⟨v, hv⟩ := rowValue_ok s row
  obtain ⟨c, hc⟩ := rowCorrection_ok s row.quantity v
  unfold stepRow
  simp only [hv, hc, ok_bind]
  obtain ⟨l, hl⟩ := lastCost_ok s (s.q + row.quantity)
    (if s.q + row.quantity = 0 ∧ s.v + v + c ≠ 0 then 0 else s.v + v + c)
  rw [hl]
  exact ⟨_, rfl⟩

theorem stepRow_inv {s : WalkState} {row : WalkRow} {fig : RowFigures} {after : WalkState}
    (h : stepRow s row = .ok (fig, after)) :
    rowValue s row = .ok fig.value ∧ rowCorrection s row.quantity fig.value = .ok fig.correction ∧
      after.q = s.q + row.quantity ∧
      (fig.residual, after.v) =
        if s.q + row.quantity = 0 ∧ s.v + fig.value + fig.correction ≠ 0 then
          (-(s.v + fig.value + fig.correction), 0)
        else (0, s.v + fig.value + fig.correction) := by
  unfold stepRow at h
  simp only [bind_eq_ok, pure_eq_ok, Prod.mk.injEq] at h
  obtain ⟨v, hv, c, hc, l, -, rfl, rfl⟩ := h
  refine ⟨hv, hc, rfl, ?_⟩
  split_ifs <;> rfl

theorem stepRow_spec {s : WalkState} {row : WalkRow} {fig : RowFigures} {after : WalkState}
    (h : stepRow s row = .ok (fig, after)) : RowSpec s row fig after := by
  obtain ⟨-, hc, hq, hrv⟩ := stepRow_inv h
  have hcorr := rowCorrection_ne_zero hc
  split_ifs at hrv with h0 <;> obtain ⟨hr, hv⟩ := Prod.mk.injEq .. ▸ hrv
  · exact ⟨hq, by rw [hr, hv]; ring, fun _ => hv, hcorr, fun _ => hq.trans h0.1⟩
  · refine ⟨hq, by rw [hr, hv]; ring, fun h1 => ?_, hcorr, fun h1 => absurd hr h1⟩
    by_contra hne
    exact h0 ⟨hq ▸ h1, hv ▸ hne⟩

theorem stepRow_cents {s : WalkState} {row : WalkRow} {fig : RowFigures} {after : WalkState}
    (hs : Cents s.v) (hg : row.valueMode = .given → Cents (row.given.getD 0))
    (h : stepRow s row = .ok (fig, after)) : RowCents fig after := by
  obtain ⟨hv, hc, -, hrv⟩ := stepRow_inv h
  have hvc := rowValue_cents hs hg hv
  have hcc := rowCorrection_cents hc
  have hsum : Cents (s.v + fig.value + fig.correction) := (hs.add hvc).add hcc
  split_ifs at hrv <;> obtain ⟨hr, hv⟩ := Prod.mk.injEq .. ▸ hrv
  · exact ⟨hvc, hcc, hr ▸ hsum.neg, hv ▸ Places.zero⟩
  · exact ⟨hvc, hcc, hr ▸ Places.zero, hv ▸ hsum⟩

end MyBooks
