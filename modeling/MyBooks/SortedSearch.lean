import Mathlib.Data.List.Lex
import Mathlib.Data.List.Infix
import Mathlib.Data.List.TakeWhile
import Mathlib.Tactic.Linarith

/-!
# Search in a sorted list

`upperBound` halves an interval until it has the first place of a sorted list whose element is above
a given one (`drop_upperBound`). Of sorted strings, those a string is a proper prefix of follow that
place in one block (`mem_extensions`).
-/

namespace MyBooks

variable {α : Type*} [LinearOrder α]

/-- The first place from `lo` to `hi` with an element above `r`, by halving. -/
def upperBound (xs : List α) (r : α) : ℕ → ℕ → ℕ → ℕ
  | 0, lo, _ => lo
  | fuel + 1, lo, hi =>
    if lo < hi then
      let mid := (lo + hi) / 2
      if ∀ x ∈ xs[mid]?, x ≤ r then upperBound xs r fuel (mid + 1) hi
      else upperBound xs r fuel lo mid
    else lo

variable {xs : List α} {r : α}

/-- All elements before place `k` are at most `r`, all from it on are above. -/
def SplitsAt (xs : List α) (r : α) (k : ℕ) : Prop :=
  (∀ x ∈ xs.take k, x ≤ r) ∧ ∀ x ∈ xs.drop k, r < x

theorem SplitsAt.drop {k : ℕ} (h : SplitsAt xs r k) : xs.drop k = xs.filter fun x => ¬x ≤ r := by
  have hlow : (xs.take k).filter (fun x => ¬x ≤ r) = [] :=
    List.filter_eq_nil_iff.mpr fun x hx => by simpa using h.1 x hx
  have hhigh : (xs.drop k).filter (fun x => ¬x ≤ r) = xs.drop k :=
    List.filter_eq_self.mpr fun x hx => by simpa using h.2 x hx
  calc xs.drop k = (xs.take k ++ xs.drop k).filter (fun x => ¬x ≤ r) := by
        rw [List.filter_append, hlow, hhigh, List.nil_append]
    _ = _ := by rw [List.take_append_drop]

/-- The elements up to an element at most `r` are at most `r`. -/
theorem take_le_of_getElem (hs : xs.Pairwise (· ≤ ·)) {mid : ℕ} (hmid : mid < xs.length)
    (h : xs[mid] ≤ r) : ∀ x ∈ xs.take (mid + 1), x ≤ r := by
  intro x hx
  obtain ⟨i, hi, rfl⟩ := List.mem_take_iff_getElem.mp hx
  rcases Nat.lt_or_ge i mid with hlt | hge
  · exact (List.pairwise_iff_getElem.mp hs i mid _ hmid hlt).trans h
  · obtain rfl : i = mid := by omega
    exact h

theorem lt_drop_of_getElem (hs : xs.Pairwise (· ≤ ·)) {mid : ℕ} (hmid : mid < xs.length)
    (h : r < xs[mid]) : ∀ x ∈ xs.drop mid, r < x := by
  intro x hx
  obtain ⟨i, hi, rfl⟩ := List.mem_drop_iff_getElem.mp hx
  rcases Nat.eq_zero_or_pos i with rfl | hpos
  · simpa using h
  · exact h.trans_le (List.pairwise_iff_getElem.mp hs mid (mid + i) hmid _ (by omega))

/-- A step keeps what lies outside the interval on its side. -/
theorem splitsAt_upperBound (hs : xs.Pairwise (· ≤ ·)) : ∀ {fuel lo hi : ℕ}, hi - lo ≤ fuel →
    lo ≤ hi → hi ≤ xs.length → (∀ x ∈ xs.take lo, x ≤ r) → (∀ x ∈ xs.drop hi, r < x) →
    SplitsAt xs r (upperBound xs r fuel lo hi)
  | 0, lo, hi, hfuel, hle, _, hlow, hhigh => by
    obtain rfl : lo = hi := by omega
    exact ⟨hlow, hhigh⟩
  | fuel + 1, lo, hi, hfuel, hle, hlen, hlow, hhigh => by
    simp only [upperBound]
    split_ifs with hlt hmid
    · have hm : (lo + hi) / 2 < xs.length := by omega
      rw [List.getElem?_eq_getElem hm] at hmid
      exact splitsAt_upperBound hs (by omega) (by omega) hlen
        (take_le_of_getElem hs hm (hmid _ rfl)) hhigh
    · have hm : (lo + hi) / 2 < xs.length := by omega
      rw [List.getElem?_eq_getElem hm] at hmid
      have habove : r < xs[(lo + hi) / 2] := not_le.mp fun h => hmid fun x hx => by
        rwa [← Option.some.inj hx]
      exact splitsAt_upperBound hs (by omega) (by omega) (by omega) hlow
        (lt_drop_of_getElem hs hm habove)
    · obtain rfl : lo = hi := by omega
      exact ⟨hlow, hhigh⟩

/-- From the place found on, the elements above `r`. -/
theorem drop_upperBound (hs : xs.Pairwise (· ≤ ·)) :
    xs.drop (upperBound xs r xs.length 0 xs.length) = xs.filter fun x => ¬x ≤ r :=
  (splitsAt_upperBound hs (by omega) (Nat.zero_le _) le_rfl (by simp) (by simp)).drop

/-- Where what follows meets `p` only if what comes before does, the initial block meeting `p` is
all that meets it. -/
theorem takeWhile_eq_filter {β : Type*} {p : β → Bool} : ∀ {l : List β},
    l.Pairwise (fun x y => p y = true → p x = true) → l.takeWhile p = l.filter p
  | [], _ => rfl
  | x :: l, h => by
    obtain ⟨hx, hl⟩ := List.pairwise_cons.mp h
    rw [List.takeWhile_cons, List.filter_cons, takeWhile_eq_filter hl]
    split_ifs with hp
    · rfl
    · exact (List.filter_eq_nil_iff.mpr fun y hy hpy => hp (hx y hy hpy)).symm

/-! ## Strings by prefix -/

/-- Between a string and one it is a prefix of, it is a prefix of all. -/
theorem prefix_of_between : ∀ {r x y : List α}, r ≤ x → x ≤ y → r <+: y → r <+: x
  | [], _, _, _, _, _ => List.nil_prefix
  | a :: r, [], _, h, _, _ => absurd h (by simp)
  | a :: r, b :: x, [], _, _, h => absurd h (by simp)
  | a :: r, b :: x, c :: y, hr, hx, h => by
    obtain ⟨rfl, hy⟩ := List.cons_prefix_cons.mp h
    have hhead : a = b := le_antisymm (not_lt.mp fun hlt => hr.not_gt (.rel hlt))
      (not_lt.mp fun hlt => hx.not_gt (.rel hlt))
    subst hhead
    exact List.cons_prefix_cons.mpr ⟨rfl, prefix_of_between
      (not_lt.mp fun hlt => hr.not_gt (.cons hlt)) (not_lt.mp fun hlt => hx.not_gt (.cons hlt)) hy⟩

theorem lt_of_prefix {x y : List α} (h : x <+: y) (hne : x ≠ y) : x < y := by
  obtain ⟨t, rfl⟩ := h
  exact lt_of_le_of_ne (not_lt.mp (List.not_lt.mpr List.le_append_left)) hne

/-- The strings of a sorted list that continue `r`: the block after its place. -/
def extensions (xs : List (List α)) (r : List α) : List (List α) :=
  (xs.drop (upperBound xs r xs.length 0 xs.length)).takeWhile fun x => r.isPrefixOf x

theorem mem_extensions {xs : List (List α)} {r x : List α} (hs : xs.Pairwise (· ≤ ·)) :
    x ∈ extensions xs r ↔ x ∈ xs ∧ r < x ∧ r <+: x := by
  have hblock : ((xs.filter fun y => ¬y ≤ r).Pairwise fun y z =>
      (fun w => r.isPrefixOf w) z = true → (fun w => r.isPrefixOf w) y = true) := by
    refine List.Pairwise.imp_of_mem (fun {y z} hy _ hyz hz => ?_) (hs.sublist List.filter_sublist)
    have hry : r < y := by simpa using (List.mem_filter.mp hy).2
    exact List.isPrefixOf_iff_prefix.mpr
      (prefix_of_between hry.le hyz (List.isPrefixOf_iff_prefix.mp hz))
  rw [extensions, drop_upperBound hs, takeWhile_eq_filter hblock, List.mem_filter, List.mem_filter]
  simp [and_assoc]

end MyBooks
