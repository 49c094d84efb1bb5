import Mathlib.Algebra.Order.BigOperators.Group.List
import Mathlib.Algebra.BigOperators.Group.List.Lemmas
import Mathlib.Data.List.Nodup
import Mathlib.Tactic.Abel

/-!
# Sums over the rows of a table

`tally p w xs` adds up `w` over the rows of `xs` that meet `p`. The rules say how a sum changes as
rows are added or rewritten, and that sums by key come to the sum over all rows that have one of the
keys (`sum_tally_key`).
-/

namespace MyBooks

variable {α β γ M : Type*}

section Monoid

variable [AddCommMonoid M]

def tally (p : α → Bool) (w : α → M) (xs : List α) : M := ((xs.filter p).map w).sum

variable {p q : α → Bool} {w v : α → M} {xs ys : List α}

@[simp] theorem tally_nil : tally p w [] = 0 := rfl

theorem tally_cons (x : α) : tally p w (x :: xs) = (if p x then w x else 0) + tally p w xs := by
  unfold tally
  rw [List.filter_cons]
  split_ifs <;> simp

theorem tally_append : tally p w (xs ++ ys) = tally p w xs + tally p w ys := by
  simp [tally]

theorem tally_eq_zero (h : ∀ x ∈ xs, p x = false) : tally p w xs = 0 := by
  rw [tally, List.filter_eq_nil_iff.mpr fun x hx => by simp [h x hx]]
  rfl

/-- Rows that are left out count for nothing. -/
theorem tally_eq_sum : ∀ {xs : List α}, (∀ x ∈ xs, p x = false → w x = 0) →
    tally p w xs = (xs.map w).sum
  | [], _ => rfl
  | x :: xs, h => by
    obtain ⟨hx, hxs⟩ := List.forall_mem_cons.mp h
    rw [tally_cons, List.map_cons, List.sum_cons, tally_eq_sum hxs]
    cases hp : p x with
    | true => simp
    | false => simp [hx hp]

theorem tally_map (f : β → α) (zs : List β) :
    tally p w (zs.map f) = tally (fun z => p (f z)) (fun z => w (f z)) zs := by
  simp [tally, List.filter_map, Function.comp_def]

theorem tally_filter (q : α → Bool) (xs : List α) :
    tally p w (xs.filter q) = tally (fun x => q x && p x) w xs := by
  rw [tally, List.filter_filter, tally]
  simp only [Bool.and_comm]

theorem tally_congr : ∀ {xs : List α}, (∀ x ∈ xs, p x = q x) → (∀ x ∈ xs, p x → w x = v x) →
    tally p w xs = tally q v xs
  | [], _, _ => rfl
  | x :: xs, hp, hw => by
    rw [tally_cons, tally_cons, ← hp x List.mem_cons_self,
      tally_congr (fun y hy => hp y (List.mem_cons_of_mem _ hy))
        (fun y hy => hw y (List.mem_cons_of_mem _ hy))]
    split_ifs with h
    · rw [hw x List.mem_cons_self h]
    · rfl

/-- The rows that meet `p` are those that meet `q` too, and the others. -/
theorem tally_split (q : α → Bool) : ∀ xs : List α, tally p w xs =
    tally (fun x => p x && q x) w xs + tally (fun x => p x && !q x) w xs
  | [] => by simp
  | x :: xs => by
    rw [tally_cons, tally_cons, tally_cons, tally_split q xs]
    cases hp : p x <;> cases hq : q x <;> simp <;> abel

theorem tally_add (w v : α → M) : ∀ xs : List α,
    tally p (fun x => w x + v x) xs = tally p w xs + tally p v xs
  | [] => by simp
  | x :: xs => by
    rw [tally_cons, tally_cons, tally_cons, tally_add w v xs]
    split_ifs
    · exact add_add_add_comm _ _ _ _
    · simp

theorem tally_perm (h : List.Perm xs ys) : tally p w xs = tally p w ys :=
  ((h.filter p).map w).sum_eq

/-- Rewriting the one row of a key changes the sum by that row. -/
theorem tally_modify [DecidableEq γ] (key : α → γ) (f : α → α) : ∀ {xs : List α} {x : α},
    (xs.map key).Nodup → x ∈ xs →
      tally p w (xs.map fun y => if key y = key x then f y else y) + (if p x then w x else 0) =
        tally p w xs + (if p (f x) then w (f x) else 0)
  | y :: xs, x, hn, hx => by
    rw [List.map_cons, List.nodup_cons] at hn
    rw [List.map_cons, tally_cons, tally_cons]
    rcases List.mem_cons.mp hx with rfl | hmem
    · have hrest : xs.map (fun y => if key y = key x then f y else y) = xs := by
        refine (List.map_congr_left fun y hy => if_neg fun he => hn.1 ?_).trans (List.map_id' xs)
        exact he ▸ List.mem_map_of_mem hy
      rw [hrest, if_pos rfl]
      abel
    · have hne : key y ≠ key x := fun he => hn.1 (he ▸ List.mem_map_of_mem hmem)
      rw [if_neg hne, add_assoc, tally_modify key f hn.2 hmem, add_assoc]

/-- Without the one row of a key, the sum is less by that row. -/
theorem tally_erase [DecidableEq γ] (key : α → γ) :
    ∀ {xs : List α} {x : α}, (xs.map key).Nodup → x ∈ xs →
      tally p w (xs.filter fun y => key y ≠ key x) + (if p x then w x else 0) = tally p w xs
  | y :: xs, x, hn, hx => by
    rw [List.map_cons, List.nodup_cons] at hn
    rw [tally_cons]
    rcases List.mem_cons.mp hx with rfl | hmem
    · have hrest : xs.filter (fun y => key y ≠ key x) = xs := by
        refine List.filter_eq_self.mpr fun y hy => decide_eq_true fun he => hn.1 ?_
        exact he ▸ List.mem_map_of_mem hy
      rw [List.filter_cons_of_neg (by simp), hrest, add_comm]
    · have hne : key y ≠ key x := fun he => hn.1 (he ▸ List.mem_map_of_mem hmem)
      rw [List.filter_cons_of_pos (by simpa using hne), tally_cons, add_assoc,
        tally_erase key hn.2 hmem]

theorem sum_map_key [DecidableEq γ] (m : M) {k : γ} : ∀ {keys : List γ}, keys.Nodup → k ∈ keys →
    (keys.map fun k' => if k = k' then m else 0).sum = m
  | k' :: keys, hn, hk => by
    obtain ⟨hk', hn⟩ := List.nodup_cons.mp hn
    rw [List.map_cons, List.sum_cons]
    rcases List.mem_cons.mp hk with rfl | hmem
    · have hrest : ∀ k' ∈ keys, (if k = k' then m else 0) = 0 := fun k' h =>
        if_neg (by rintro rfl; exact hk' h)
      rw [if_pos rfl, List.map_congr_left hrest]
      simp
    · rw [if_neg (by rintro rfl; exact hk' hmem), zero_add, sum_map_key m hn hmem]

/-- A sum of differences is the difference of the sums. -/
theorem sum_map_sub {G : Type*} [AddCommGroup G] (f g : α → G) : ∀ xs : List α,
    (xs.map fun x => f x - g x).sum = (xs.map f).sum - (xs.map g).sum
  | [] => by simp
  | x :: xs => by
    rw [List.map_cons, List.map_cons, List.map_cons, List.sum_cons, List.sum_cons, List.sum_cons,
      sum_map_sub f g xs]
    abel

/-- Sums by key come to the sum over the rows that have one of the keys. -/
theorem sum_tally_key [DecidableEq γ] (key : α → γ) {keys : List γ} (hkeys : keys.Nodup) :
    ∀ xs : List α, (keys.map fun k => tally (fun x => p x && decide (key x = k)) w xs).sum =
      tally (fun x => p x && decide (key x ∈ keys)) w xs
  | [] => by simp
  | x :: xs => by
    simp only [tally_cons]
    rw [List.sum_map_add, sum_tally_key key hkeys xs]
    congr 1
    by_cases hp : p x
    · by_cases hk : key x ∈ keys
      · simp only [hp, hk, decide_true, Bool.and_self, if_true, Bool.true_and, decide_eq_true_eq]
        exact sum_map_key _ hkeys hk
      · have : ∀ k ∈ keys, key x ≠ k := fun k h he => hk (he ▸ h)
        simp only [hp, hk, decide_false, Bool.and_false, Bool.true_and, decide_eq_true_eq]
        rw [List.map_congr_left fun k h => if_neg (this k h)]
        simp
    · simp [hp]

theorem nodup_eraseDups [DecidableEq γ] : ∀ keys : List γ, keys.eraseDups.Nodup
  | [] => List.nodup_nil
  | k :: keys => by
    rw [List.eraseDups_cons, List.nodup_cons, List.mem_eraseDups]
    exact ⟨by simp, nodup_eraseDups _⟩
termination_by keys => keys.length
decreasing_by exact Nat.lt_succ_of_le (List.length_filter_le _ _)

/-- Sums by key, over the keys that meet `q`, and the sum over the rows whose key does not. -/
theorem sum_by_key [DecidableEq γ] (key : α → γ) (q : γ → Bool) (w : α → M) (xs : List α) :
    ((((xs.map key).filter q).eraseDups.map fun k => ((xs.filter fun x => key x = k).map w).sum).sum +
      ((xs.filter fun x => q (key x) = false).map w).sum) = (xs.map w).sum := by
  have hkeys := sum_tally_key (p := fun _ => true) (w := w) key
    (nodup_eraseDups ((xs.map key).filter q)) xs
  have hall := tally_split (p := fun _ => true) (w := w) (fun x => q (key x)) xs
  simp only [Bool.true_and] at hkeys hall
  have hmem : tally (fun x => decide (key x ∈ ((xs.map key).filter q).eraseDups)) w xs =
      tally (fun x => q (key x)) w xs := by
    refine tally_congr (fun x hx => ?_) fun _ _ _ => rfl
    rw [Bool.eq_iff_iff, decide_eq_true_eq, List.mem_eraseDups, List.mem_filter]
    exact and_iff_right (List.mem_map_of_mem hx)
  rw [hmem] at hkeys
  have htrue : tally (fun _ => true) w xs = (xs.map w).sum := by simp [tally]
  have hrest : tally (fun x => !q (key x)) w xs = ((xs.filter fun x => q (key x) = false).map w).sum := by
    refine congrArg (fun l => (List.map w l).sum) (List.filter_congr fun x _ => ?_)
    cases q (key x) <;> rfl
  rw [← htrue, hall, ← hkeys, hrest]
  rfl

end Monoid

section Ordered

variable [AddCommMonoid M] [PartialOrder M] [IsOrderedAddMonoid M] {p q : α → Bool} {w v : α → M}

theorem tally_nonneg {xs : List α} (h : ∀ x ∈ xs, p x → 0 ≤ w x) : 0 ≤ tally p w xs := by
  refine List.sum_nonneg fun y hy => ?_
  obtain ⟨x, hx, rfl⟩ := List.mem_map.mp hy
  obtain ⟨hx, hp⟩ := List.mem_filter.mp hx
  exact h x hx hp

theorem tally_mono : ∀ {xs : List α}, (∀ x ∈ xs, p x → q x) → (∀ x ∈ xs, q x → 0 ≤ w x) →
    tally p w xs ≤ tally q w xs
  | [], _, _ => le_refl _
  | x :: xs, hpq, hw => by
    rw [tally_cons, tally_cons]
    refine add_le_add ?_ (tally_mono (fun y hy => hpq y (List.mem_cons_of_mem _ hy))
      (fun y hy => hw y (List.mem_cons_of_mem _ hy)))
    split_ifs with hp hq hq
    · exact le_refl _
    · exact absurd (hpq x List.mem_cons_self hp) hq
    · exact hw x List.mem_cons_self hq
    · exact le_refl _

end Ordered

section Strict

variable [AddCommMonoid M] [PartialOrder M] [IsOrderedCancelAddMonoid M] {p q : α → Bool}
  {w : α → M}

/-- A row that only the larger sum takes makes it larger. -/
theorem tally_lt {xs : List α} {x : α} (hx : x ∈ xs) (hp : p x = false) (hq : q x = true)
    (hpos : 0 < w x) (hpq : ∀ x ∈ xs, p x → q x) (hw : ∀ x ∈ xs, q x → 0 ≤ w x) :
    tally p w xs < tally q w xs := by
  obtain ⟨l, r, rfl⟩ := List.append_of_mem hx
  have hl : tally p w l ≤ tally q w l := tally_mono (fun y hy => hpq y (by simp [hy]))
    fun y hy => hw y (by simp [hy])
  have hr : tally p w r ≤ tally q w r := tally_mono (fun y hy => hpq y (by simp [hy]))
    fun y hy => hw y (by simp [hy])
  rw [tally_append, tally_append, tally_cons, tally_cons, if_neg (by simp [hp]), if_pos hq, zero_add]
  exact add_lt_add_of_le_of_lt hl (hr.trans_lt (lt_add_of_pos_left _ hpos))

end Strict

end MyBooks
