import Mathlib.Algebra.Order.Group.MinMax
import Mathlib.Algebra.BigOperators.Group.List.Basic
import Mathlib.Algebra.Order.BigOperators.Group.List
import Mathlib.Tactic.Abel

/-!
# Pouring an amount over demands

An amount is poured over a list of demands from the first to the last: each takes what it can and the
rest runs on. Pouring twice is pouring the sum (`pour_add`), so what a demand is short of is a function
of the total alone (`pour_getElem?`).
-/

namespace MyBooks

variable {K : Type*} [AddCommGroup K] [LinearOrder K]

/-- What each demand is still short of once `a` ran over them, and what ran over. -/
def pour : List K → K → List K × K
  | [], a => ([], a)
  | b :: bs, a => ((b - min b a) :: (pour bs (a - min b a)).1, (pour bs (a - min b a)).2)

@[simp] theorem pour_nil (a : K) : pour [] a = ([], a) := rfl

theorem pour_cons (b : K) (bs : List K) (a : K) :
    pour (b :: bs) a =
      ((b - min b a) :: (pour bs (a - min b a)).1, (pour bs (a - min b a)).2) := rfl

@[simp] theorem length_pour (bs : List K) (a : K) : (pour bs a).1.length = bs.length := by
  induction bs generalizing a with
  | nil => rfl
  | cons b bs ih => simp [pour_cons, ih]

/-- Nothing is lost. -/
theorem pour_sum (bs : List K) (a : K) : (pour bs a).1.sum + a = bs.sum + (pour bs a).2 := by
  induction bs generalizing a with
  | nil => rfl
  | cons b bs ih =>
    have := ih (a - min b a)
    simp only [pour_cons, List.sum_cons]
    calc b - min b a + (pour bs (a - min b a)).1.sum + a
        = b + ((pour bs (a - min b a)).1.sum + (a - min b a)) := by abel
      _ = b + bs.sum + (pour bs (a - min b a)).2 := by rw [this, add_assoc]

theorem pour_zeros {ys : List K} (h : ∀ y ∈ ys, y = 0) {a : K} (ha : 0 ≤ a) :
    pour ys a = (ys, a) := by
  induction ys with
  | nil => rfl
  | cons y ys ih =>
    obtain ⟨hy, hys⟩ := List.forall_mem_cons.mp h
    rw [pour_cons, hy, min_eq_left ha, sub_zero, sub_zero, ih hys]

theorem pour_zero : ∀ {bs : List K}, (∀ b ∈ bs, 0 ≤ b) → pour bs 0 = (bs, 0)
  | [], _ => rfl
  | b :: bs, h => by
    obtain ⟨hb, hbs⟩ := List.forall_mem_cons.mp h
    rw [pour_cons, min_eq_right hb, sub_zero, sub_zero, pour_zero hbs]

/-- Something runs over only where no demand is short. -/
theorem pour_spare : ∀ {bs : List K}, (∀ b ∈ bs, 0 ≤ b) → ∀ {a : K},
    (pour bs a).2 = 0 ∨ ∀ x ∈ (pour bs a).1, x = 0
  | [], _, a => .inr (by simp)
  | b :: bs, h, a => by
    obtain ⟨-, hbs⟩ := List.forall_mem_cons.mp h
    rw [pour_cons]
    rcases le_total b a with hba | hab
    · rw [min_eq_left hba, sub_self]
      rcases pour_spare hbs (a := a - b) with hzero | hall
      · exact .inl hzero
      · exact .inr (List.forall_mem_cons.mpr ⟨rfl, hall⟩)
    · rw [min_eq_right hab, sub_self, pour_zero hbs]
      exact .inl rfl

variable [IsOrderedAddMonoid K]

theorem sub_min_nonneg (b a : K) : 0 ≤ a - min b a := sub_nonneg.mpr (min_le_right b a)

/-- A demand that comes in after all others takes from what ran over. -/
theorem pour_set {r : K} : ∀ {bs : List K} {i : ℕ} {a : K}, i < bs.length → 0 ≤ a →
    (∀ j b, i ≤ j → bs[j]? = some b → b = 0) →
    pour (bs.set i r) a = ((pour bs a).1.set i (r - min r (pour bs a).2),
      (pour bs a).2 - min r (pour bs a).2)
  | b :: bs, 0, a, _, ha, hzero => by
    have hall : ∀ y ∈ b :: bs, y = 0 := by
      intro y hy
      obtain ⟨j, hj⟩ := List.getElem?_of_mem hy
      exact hzero j y (Nat.zero_le j) hj
    have hbs := (List.forall_mem_cons.mp hall).2
    rw [pour_zeros hall ha, List.set_cons_zero, List.set_cons_zero, pour_cons,
      pour_zeros hbs (sub_min_nonneg r a)]
  | b :: bs, i + 1, a, hi, ha, hzero => by
    have ih := pour_set (r := r) (Nat.lt_of_succ_lt_succ hi) (sub_min_nonneg b a)
      fun j y hj hy => hzero (j + 1) y (Nat.succ_le_succ hj) (by simpa using hy)
    rw [List.set_cons_succ, pour_cons, ih]
    rfl

theorem pour_nonneg {bs : List K} : ∀ {a : K}, 0 ≤ a →
    (∀ x ∈ (pour bs a).1, 0 ≤ x) ∧ 0 ≤ (pour bs a).2 := by
  induction bs with
  | nil => exact fun ha => ⟨by simp, ha⟩
  | cons b bs ih =>
    intro a _
    have hrest := ih (sub_min_nonneg b a)
    refine ⟨fun x hx => ?_, hrest.2⟩
    rcases List.mem_cons.mp hx with rfl | hx
    · exact sub_nonneg.mpr (min_le_left b a)
    · exact hrest.1 x hx

/-- Pouring `a` and then `c` leaves what pouring `a + c` does. -/
theorem pour_add : ∀ {bs : List K}, (∀ b ∈ bs, 0 ≤ b) → ∀ {a c : K}, 0 ≤ a → 0 ≤ c →
    pour bs (a + c) =
      ((pour (pour bs a).1 c).1, (pour bs a).2 + (pour (pour bs a).1 c).2)
  | [], _, a, c, _, _ => rfl
  | b :: bs, hb, a, c, ha, hc => by
    obtain ⟨-, hbs⟩ := List.forall_mem_cons.mp hb
    have htake : min b (a + c) = min b a + min (b - min b a) c := by
      rcases le_total b a with h | h
      · rw [min_eq_left h, sub_self, min_eq_left hc, add_zero,
          min_eq_left (h.trans (le_add_of_nonneg_right hc))]
      · rw [min_eq_right h, ← min_add_add_left, add_sub_cancel]
    have hrest : a + c - min b (a + c) = (a - min b a) + (c - min (b - min b a) c) := by
      rw [htake]
      abel
    have ih := pour_add hbs (sub_min_nonneg b a) (sub_min_nonneg (b - min b a) c)
    simp only [pour_cons]
    rw [hrest, ih, htake, sub_add_eq_sub_sub]

/-- What ran over is what the total exceeds the demands by. -/
theorem pour_snd : ∀ {bs : List K}, (∀ b ∈ bs, 0 ≤ b) → ∀ {a : K}, 0 ≤ a →
    (pour bs a).2 = max 0 (a - bs.sum)
  | [], _, a, ha => by simp [ha]
  | b :: bs, hb, a, ha => by
    obtain ⟨-, hbs⟩ := List.forall_mem_cons.mp hb
    have hsum : 0 ≤ bs.sum := List.sum_nonneg hbs
    rw [pour_cons, pour_snd hbs (sub_min_nonneg b a), List.sum_cons]
    rcases le_total b a with h | h
    · rw [min_eq_left h, sub_add_eq_sub_sub]
    · rw [min_eq_right h, sub_self, zero_sub, max_eq_left (neg_nonpos.mpr hsum),
        max_eq_left (sub_nonpos.mpr (h.trans (le_add_of_nonneg_right hsum)))]

/-- A demand is short of itself, or of what the demands up to it exceed the total by. -/
theorem pour_getElem? : ∀ {bs : List K}, (∀ b ∈ bs, 0 ≤ b) → ∀ {a : K}, 0 ≤ a →
    ∀ {i : ℕ} {b : K}, bs[i]? = some b →
    (pour bs a).1[i]? = some (min b (max 0 ((bs.take (i + 1)).sum - a)))
  | b :: bs, hb, a, ha, 0, _, rfl => by
    have hb0 := (List.forall_mem_cons.mp hb).1
    rw [pour_cons]
    simp only [List.getElem?_cons_zero, List.take_succ_cons, List.take_zero, List.sum_cons,
      List.sum_nil, add_zero, Option.some.injEq]
    rcases le_total b a with h | h
    · rw [min_eq_left h, sub_self, max_eq_left (sub_nonpos.mpr h), min_eq_right hb0]
    · rw [min_eq_right h, max_eq_right (sub_nonneg.mpr h),
        min_eq_right (sub_le_self b ha)]
  | b :: bs, hb, a, ha, i + 1, c, hc => by
    obtain ⟨-, hbs⟩ := List.forall_mem_cons.mp hb
    have htake : 0 ≤ (bs.take (i + 1)).sum :=
      List.sum_nonneg fun x hx => hbs x (List.mem_of_mem_take hx)
    have hc' : bs[i]? = some c := by simpa using hc
    rw [pour_cons, List.getElem?_cons_succ, pour_getElem? hbs (sub_min_nonneg b a) hc',
      List.take_succ_cons, List.sum_cons]
    rcases le_total b a with h | h
    · have hsub : (bs.take (i + 1)).sum - (a - b) = b + (bs.take (i + 1)).sum - a := by abel
      rw [min_eq_left h, hsub]
    · -- nothing reaches the later demands, and the sum up to one is at least that one
      have hcle : c ≤ (bs.take (i + 1)).sum := by
        refine List.single_le_sum (fun x hx => hbs x (List.mem_of_mem_take hx)) c ?_
        exact List.mem_of_getElem? (i := i) (by rw [List.getElem?_take_of_lt (by omega)]; exact hc')
      have hle : (bs.take (i + 1)).sum ≤ b + (bs.take (i + 1)).sum - a := by
        rw [add_sub_right_comm]
        exact le_add_of_nonneg_left (sub_nonneg.mpr h)
      rw [min_eq_right h, sub_self, sub_zero, min_eq_left (hcle.trans (le_max_right _ _)),
        min_eq_left ((hcle.trans hle).trans (le_max_right _ _))]

/-- Up to some demand all are met, and past it none gets anything. -/
theorem pour_position : ∀ {bs : List K}, (∀ b ∈ bs, 0 ≤ b) → ∀ {a : K}, 0 ≤ a →
    ∃ k, (∀ x ∈ (pour bs a).1.take k, x = 0) ∧ (pour bs a).1.drop (k + 1) = bs.drop (k + 1)
  | [], _, a, _ => ⟨0, by simp, rfl⟩
  | b :: bs, hb, a, ha => by
    obtain ⟨-, hbs⟩ := List.forall_mem_cons.mp hb
    rw [pour_cons]
    rcases le_or_gt b a with h | h
    · obtain ⟨k, htake, hdrop⟩ := pour_position hbs (sub_nonneg.mpr h)
      rw [min_eq_left h]
      refine ⟨k + 1, ?_, hdrop⟩
      rw [List.take_succ_cons]
      exact List.forall_mem_cons.mpr ⟨sub_self b, htake⟩
    · -- what is left goes to this demand
      refine ⟨0, by simp, ?_⟩
      rw [min_eq_right h.le, sub_self, pour_zero hbs]
      rfl

end MyBooks
