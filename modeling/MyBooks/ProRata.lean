import Mathlib.Algebra.Order.Field.Basic
import Mathlib.Algebra.Order.BigOperators.Group.List
import Mathlib.Data.List.Forall2
import Mathlib.Tactic.Linarith
import Mathlib.Tactic.Ring

/-!
# Splits whose last part takes the remainder

An amount goes to keyed weights, each weight but the last taking a share of its own, and the last
one what is left. The parts add up to the amount. Where a share is off an exact part by a rounding
error, so is each part, the last by one error for each of the others.
-/

namespace MyBooks

variable {κ K : Type*} [Field K] [LinearOrder K] [IsStrictOrderedRing K]

def splitLast (share : K → K) : K → List (κ × K) → List (κ × K)
  | _, [] => []
  | rest, [(k, _)] => [(k, rest)]
  | rest, (k, w) :: e :: ws => (k, share w) :: splitLast share (rest - share w) (e :: ws)

variable (share exact : K → K) {ε δ : K}

omit [LinearOrder K] [IsStrictOrderedRing K] in
theorem splitLast_keys : ∀ (rest : K) (ws : List (κ × K)),
    (splitLast share rest ws).map Prod.fst = ws.map Prod.fst
  | _, [] => rfl
  | _, [_] => rfl
  | rest, (k, w) :: e :: ws => by
    rw [splitLast, List.map_cons, List.map_cons, splitLast_keys]

omit [LinearOrder K] [IsStrictOrderedRing K] in
/-- The parts add up. -/
theorem splitLast_sum : ∀ (rest : K) {ws : List (κ × K)}, ws ≠ [] →
    ((splitLast share rest ws).map Prod.snd).sum = rest
  | _, [], h => absurd rfl h
  | rest, [(k, w)], _ => by simp [splitLast]
  | rest, (k, w) :: e :: ws, _ => by
    rw [splitLast, List.map_cons, List.sum_cons, splitLast_sum (rest - share w) (by simp)]
    ring

omit [LinearOrder K] [IsStrictOrderedRing K] in
/-- All parts but the last are the shares themselves. -/
theorem splitLast_getElem? : ∀ (rest : K) {ws : List (κ × K)} {i : ℕ}, i + 1 < ws.length →
    (splitLast share rest ws)[i]? = ws[i]?.map fun e => (e.1, share e.2)
  | _, [], _, h => absurd h (Nat.not_lt_zero _)
  | _, [_], i, h => by
    rw [List.length_singleton] at h
    omega
  | rest, (k, w) :: e :: ws, 0, _ => rfl
  | rest, (k, w) :: e :: ws, i + 1, h => by
    rw [splitLast, List.getElem?_cons_succ, List.getElem?_cons_succ]
    exact splitLast_getElem? _ (Nat.lt_of_succ_lt_succ h)

/-- Each part is near its exact part, where what there is to split is near all of these. -/
theorem splitLast_near (hε : 0 ≤ ε) : ∀ {rest δ : K} {ws : List (κ × K)},
    (∀ e ∈ ws, |share e.2 - exact e.2| ≤ ε) → |rest - (ws.map fun e => exact e.2).sum| ≤ δ →
      List.Forall₂ (fun e p => p.1 = e.1 ∧ |p.2 - exact e.2| ≤ δ + (ws.length - 1) * ε) ws
        (splitLast share rest ws)
  | _, _, [], _, _ => .nil
  | rest, δ, [(k, w)], _, hδ => by
    refine .cons ⟨rfl, ?_⟩ .nil
    simpa using hδ
  | rest, δ, (k, w) :: e :: ws, hshare, hδ => by
    have hw := hshare (k, w) List.mem_cons_self
    have hδ0 : 0 ≤ δ := (abs_nonneg _).trans hδ
    rw [List.map_cons, List.sum_cons] at hδ
    -- the share's own error is left for the others
    have hrest : |rest - share w - ((e :: ws).map fun e => exact e.2).sum| ≤ δ + ε := by
      have hsplit : rest - share w - ((e :: ws).map fun e => exact e.2).sum =
          (rest - (exact w + ((e :: ws).map fun e => exact e.2).sum)) - (share w - exact w) := by
        ring
      rw [hsplit]
      exact (abs_sub _ _).trans (add_le_add hδ hw)
    have hlen : (((k, w) :: e :: ws).length : K) = ((e :: ws).length : K) + 1 := by simp
    refine .cons ⟨rfl, ?_⟩ ?_
    · have hn : (0 : K) ≤ ws.length := Nat.cast_nonneg _
      have hprod : 0 ≤ (ws.length : K) * ε := mul_nonneg hn hε
      have : ((e :: ws).length : K) = ws.length + 1 := by simp
      rw [hlen, this]
      dsimp only at hw ⊢
      linarith
    · have ih := splitLast_near hε (fun e he => hshare e (List.mem_cons_of_mem _ he)) hrest
      refine ih.imp fun e p h => ⟨h.1, h.2.trans (le_of_eq ?_)⟩
      rw [hlen]
      ring

end MyBooks
