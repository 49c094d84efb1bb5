import MyBooks.BudgetedSearch
import Mathlib.Algebra.BigOperators.Group.List.Basic
import Mathlib.Algebra.Order.BigOperators.Group.List
import Mathlib.Data.List.Nodup
import Mathlib.Data.List.Sublists
import Mathlib.Tactic.Linarith

/-!
# Sets of an exact sum

Grouped matching looks for sets of pool items that add up to a statement line. The search is depth
first, with sums that are too large or cannot be reached cut off, and runs on a budget. It goes
through `visits` in their order as far as the budget allows (`dfs_eq_run`), and without a limit it
meets every set there is once (`mem_allVisits`, `nodup_allVisits`). So what it returns is right, but
one set alone is the only one just when the budget did not end between the first two
(`findExactSumSets_correct`).
-/

namespace MyBooks

/-- What the search reads of an item; a date is its day number. -/
structure SumPoolItem where
  cents : ℤ
  date : ℤ

structure SumSetOptions where
  minSize : ℕ
  maxSize : ℕ
  maxSets : ℕ
  maxExpansions : ℕ
  minimalOnly : Bool
  maxSpanDays : Option ℤ
  /-- What is left of the budget that the calls share. -/
  budget : Option ℤ

variable {α : Type} (item : α → SumPoolItem) (target : ℤ) (opts : SumSetOptions)

def suffixMax (rest : List α) : ℤ := rest.foldr (fun x m => max m (item x).cents) 0

/-- The dates of the chosen items and one more lie within the span. -/
def spanOk (chosen : List α) (x : α) : Bool :=
  match opts.maxSpanDays with
  | none => true
  | some span =>
    let mn := (chosen.map fun c => (item c).date).foldl min (item x).date
    let mx := (chosen.map fun c => (item c).date).foldl max (item x).date
    chosen.isEmpty || decide (mx - mn ≤ span)

/-- Whether the search goes on with `x`, `slots` items and the pool behind it still to come. -/
def admits (slots : ℕ) (chosen : List α) (sum : ℤ) (x : α) (rest : List α) : Bool :=
  let newSum := sum + (item x).cents
  !decide (target < newSum) && !decide (newSum + slots * suffixMax item rest < target) &&
    spanOk item opts chosen x

/-- The loop over the items that leave enough behind them. `true` stops it. -/
def eachItem {σ : Type} (slotsLeft : ℕ) (body : α → List α → σ → Bool × σ) :
    List α → σ → Bool × σ
  | [], st => (false, st)
  | x :: rest, st =>
    if rest.length + 1 < slotsLeft then (false, st)
    else if (body x rest st).1 then body x rest st
    else eachItem slotsLeft body rest (body x rest st).2

/-- The search with `slots` items still to choose, from `rest` on. -/
def dfs : ℕ → List α → ℤ → List α → Search (List α) → Bool × Search (List α)
  | 0, chosen, sum, _, st =>
    if (st.enter opts.maxExpansions).1 then st.enter opts.maxExpansions
    else (st.enter opts.maxExpansions).2.note opts.maxSets
      (if sum = target then some chosen else none)
  | slots + 1, chosen, sum, rest, st =>
    if (st.enter opts.maxExpansions).1 then st.enter opts.maxExpansions
    else eachItem (slots + 1)
      (fun x rest st =>
        if admits item target opts slots chosen sum x rest then
          dfs slots (chosen ++ [x]) (sum + (item x).cents) rest st
        else (false, st))
      rest (st.enter opts.maxExpansions).2

/-- The loop over the sizes. -/
def sizesLoop (pool : List α) : List ℕ → Search (List α) → Search (List α)
  | [], st => st
  | k :: ks, st =>
    let r := dfs item target opts k [] 0 pool st
    if opts.minimalOnly ∧ r.2.found ≠ [] then r.2
    else if r.1 ∧ opts.maxSets ≤ r.2.found.length then r.2
    else if opts.maxExpansions < r.2.expansions then r.2
    else if ∃ left ∈ r.2.remaining, left ≤ 0 then r.2
    else sizesLoop pool ks r.2

def searchSizes (pool : List α) : List ℕ :=
  List.range' opts.minSize (min opts.maxSize pool.length + 1 - opts.minSize)

def searchStart : Search (List α) := ⟨0, opts.budget, []⟩

/-- The sets that are found, with what is left of the budget. -/
def findExactSumSets (pool : List α) : List (List α) × Option ℤ :=
  if target ≤ 0 ∨ pool.length < opts.minSize then ([], opts.budget)
  else if ∃ left ∈ opts.budget, left ≤ 0 then ([], opts.budget)
  else
    let st := sizesLoop item target opts pool (searchSizes opts pool) (searchStart opts)
    (st.found, st.remaining)

/-! ## The visits of the search -/

/-- What `f` lists at each item that leaves enough behind it. -/
def eachVisit {β : Type} (slotsLeft : ℕ) (f : α → List α → List β) : List α → List β
  | [] => []
  | x :: rest =>
    if rest.length + 1 < slotsLeft then [] else f x rest ++ eachVisit slotsLeft f rest

/-- The visits without a limit, each with the set that it finds. -/
def visits : ℕ → List α → ℤ → List α → List (Option (List α))
  | 0, chosen, sum, _ => [if sum = target then some chosen else none]
  | slots + 1, chosen, sum, rest =>
    none :: eachVisit (slots + 1)
      (fun x rest =>
        if admits item target opts slots chosen sum x rest then
          visits slots (chosen ++ [x]) (sum + (item x).cents) rest
        else [])
      rest

section Visits

variable {item target opts}

theorem eachItem_eq_run {slotsLeft : ℕ}
    {body : α → List α → Search (List α) → Bool × Search (List α)}
    {f : α → List α → List (Option (List α))}
    (h : ∀ x rest st, body x rest st = Search.run opts.maxExpansions opts.maxSets (f x rest) st) :
    ∀ (rest : List α) (st : Search (List α)), eachItem slotsLeft body rest st =
      Search.run opts.maxExpansions opts.maxSets (eachVisit slotsLeft f rest) st
  | [], _ => rfl
  | x :: rest, st => by
    rw [eachItem, eachVisit]
    split_ifs with hshort hstop
    · rfl
    · rw [Search.run_append, ← h, if_pos hstop]
    · rw [Search.run_append, ← h, if_neg hstop]
      exact eachItem_eq_run h rest _

/-- The search goes through its visits on the budget. -/
theorem dfs_eq_run : ∀ (slots : ℕ) (chosen : List α) (sum : ℤ) (rest : List α)
    (st : Search (List α)), dfs item target opts slots chosen sum rest st =
      Search.run opts.maxExpansions opts.maxSets (visits item target opts slots chosen sum rest) st
  | 0, chosen, sum, rest, st => by
    rw [dfs, visits, Search.run_singleton, Search.visit]
  | slots + 1, chosen, sum, rest, st => by
    rw [dfs, visits, Search.run_cons_none]
    split_ifs with h
    · rfl
    · refine eachItem_eq_run (fun x rest st => ?_) rest _
      split_ifs with hx
      · exact dfs_eq_run slots _ _ rest st
      · rfl

end Visits

/-! ## The sets -/

/-- Any two of the items are dated within the span. -/
def Within (s : List α) : Prop :=
  ∀ span ∈ opts.maxSpanDays, s.Pairwise fun x y => |(item x).date - (item y).date| ≤ span

/-- A set of pool items, as a part of the pool, that the search is for. -/
structure IsExactSet (pool s : List α) : Prop where
  sublist : s.Sublist pool
  minSize : opts.minSize ≤ s.length
  maxSize : s.length ≤ opts.maxSize
  sum : (s.map fun x => (item x).cents).sum = target
  span : Within item opts s

section Sets

variable {item target opts} {pool : List α}

theorem foldl_max_le_iff {b : ℤ} : ∀ {l : List ℤ} {m : ℤ},
    l.foldl max m ≤ b ↔ ∀ y ∈ m :: l, y ≤ b
  | [], m => by simp
  | x :: l, m => by
    rw [List.foldl_cons, foldl_max_le_iff]
    simp [and_assoc]

theorem le_foldl_min_iff {b : ℤ} : ∀ {l : List ℤ} {m : ℤ},
    b ≤ l.foldl min m ↔ ∀ y ∈ m :: l, b ≤ y
  | [], m => by simp
  | x :: l, m => by
    rw [List.foldl_cons, le_foldl_min_iff]
    simp [and_assoc]

/-- The span of numbers is what any two of them are apart. -/
theorem foldl_max_sub_min_le_iff {l : List ℤ} {m span : ℤ} :
    l.foldl max m - l.foldl min m ≤ span ↔ ∀ x ∈ m :: l, ∀ y ∈ m :: l, x - y ≤ span := by
  rw [sub_le_iff_le_add, foldl_max_le_iff]
  refine forall₂_congr fun x _ => ?_
  rw [← sub_le_iff_le_add', le_foldl_min_iff]
  exact forall₂_congr fun y _ => by omega

theorem span_le_iff {chosen : List α} {x : α} {span : ℤ} (hne : chosen ≠ [])
    (h : chosen.Pairwise fun x y => |(item x).date - (item y).date| ≤ span) :
    (chosen.map fun c => (item c).date).foldl max (item x).date -
        (chosen.map fun c => (item c).date).foldl min (item x).date ≤ span ↔
      (chosen ++ [x]).Pairwise fun x y => |(item x).date - (item y).date| ≤ span := by
  rw [foldl_max_sub_min_le_iff, List.pairwise_append]
  constructor
  · refine fun hall => ⟨h, List.pairwise_singleton _ _, fun y hy z hz => ?_⟩
    obtain rfl := List.mem_singleton.mp hz
    have hy' := List.mem_cons_of_mem (item z).date
      (List.mem_map_of_mem (f := fun c => (item c).date) hy)
    exact abs_sub_le_iff.mpr ⟨hall _ hy' _ List.mem_cons_self, hall _ List.mem_cons_self _ hy'⟩
  · rintro ⟨-, -, hx⟩
    obtain ⟨c, hc⟩ := List.exists_mem_of_ne_nil chosen hne
    have hspan : 0 ≤ span := (abs_nonneg _).trans (hx c hc x (List.mem_singleton_self x))
    have hself : ∀ a : α, |(item a).date - (item a).date| ≤ span := fun a => by simpa using hspan
    have hnear : ∀ a ∈ x :: chosen, ∀ b ∈ x :: chosen,
        |(item a).date - (item b).date| ≤ span := by
      intro a ha b hb
      rcases List.mem_cons.mp ha with hax | hain
      · rcases List.mem_cons.mp hb with hbx | hbin
        · rw [hax, hbx]
          exact hself x
        · rw [hax, abs_sub_comm]
          exact hx b hbin x (List.mem_singleton_self x)
      · rcases List.mem_cons.mp hb with hbx | hbin
        · rw [hbx]
          exact hx a hain x (List.mem_singleton_self x)
        · exact List.Pairwise.forall_of_forall_of_flip (fun a _ => hself a) h
            (h.imp fun hab => (abs_sub_comm _ _).trans_le hab) hain hbin
    intro a ha b hb
    obtain ⟨a', ha', rfl⟩ := List.mem_map.mp
      (show a ∈ (x :: chosen).map fun c => (item c).date from ha)
    obtain ⟨b', hb', rfl⟩ := List.mem_map.mp
      (show b ∈ (x :: chosen).map fun c => (item c).date from hb)
    exact (le_abs_self _).trans (hnear a' ha' b' hb')

/-- The span test takes an item in when the chosen ones stay within the span. -/
theorem spanOk_iff {chosen : List α} {x : α} (h : Within item opts chosen) :
    spanOk item opts chosen x = true ↔ Within item opts (chosen ++ [x]) := by
  unfold spanOk Within at *
  cases hspan : opts.maxSpanDays with
  | none => simp
  | some span =>
    simp only [hspan, Option.mem_def, Option.some.injEq, forall_eq'] at h ⊢
    cases chosen with
    | nil => simp
    | cons c cs =>
      rw [Bool.or_eq_true, decide_eq_true_eq, span_le_iff (List.cons_ne_nil c cs) h]
      simp

theorem mem_eachVisit {β : Type} {slotsLeft : ℕ} {f : α → List α → List β} {v : β} :
    ∀ {rest : List α}, v ∈ eachVisit slotsLeft f rest ↔
      ∃ x after, x :: after <:+ rest ∧ slotsLeft ≤ after.length + 1 ∧ v ∈ f x after
  | [] => by simp [eachVisit]
  | y :: rest => by
    rw [eachVisit]
    split_ifs with hshort
    · refine ⟨fun h => (by cases h), ?_⟩
      rintro ⟨x, after, hsuffix, hlong, -⟩
      have := hsuffix.length_le
      simp only [List.length_cons] at this
      omega
    · rw [List.mem_append, mem_eachVisit]
      constructor
      · rintro (h | ⟨x, after, hsuffix, hlong, h⟩)
        · exact ⟨y, rest, List.suffix_rfl, by omega, h⟩
        · exact ⟨x, after, hsuffix.trans (List.suffix_cons y rest), hlong, h⟩
      · rintro ⟨x, after, hsuffix, hlong, h⟩
        rcases List.suffix_cons_iff.mp hsuffix with heq | hsuffix
        · obtain ⟨rfl, rfl⟩ := List.cons.inj heq
          exact .inl h
        · exact .inr ⟨x, after, hsuffix, hlong, h⟩

theorem le_suffixMax {x : α} : ∀ {rest : List α}, x ∈ rest →
    (item x).cents ≤ suffixMax item rest
  | y :: rest, h => by
    rcases List.mem_cons.mp h with rfl | h
    · exact le_max_right _ _
    · exact (le_suffixMax h).trans (le_max_left _ _)

theorem sum_le_suffixMax (item : α → SumPoolItem) {t rest : List α} (h : t.Sublist rest) :
    (t.map fun x => (item x).cents).sum ≤ t.length * suffixMax item rest := by
  have hle := List.sum_le_card_nsmul (t.map fun x => (item x).cents) (suffixMax item rest) (by
    intro y hy
    obtain ⟨x, hx, rfl⟩ := List.mem_map.mp hy
    exact le_suffixMax (h.subset hx))
  rwa [List.length_map, nsmul_eq_mul] at hle

theorem exists_suffix_of_cons_sublist {x : α} {t rest : List α} (h : (x :: t).Sublist rest) :
    ∃ after, x :: after <:+ rest ∧ t.Sublist after := by
  obtain ⟨front, back, rfl, hx, ht⟩ := List.cons_sublist_iff.mp h
  obtain ⟨before, between, rfl⟩ := List.append_of_mem hx
  exact ⟨between ++ back, ⟨before, by simp⟩, ht.trans (List.sublist_append_right _ _)⟩

/-- The visits find what is chosen with as many items of the pool as are still to choose. -/
theorem mem_visits : ∀ {slots : ℕ} {chosen : List α} {sum : ℤ} {rest s : List α},
    (∀ x ∈ rest, 0 < (item x).cents) → Within item opts chosen →
      (some s ∈ visits item target opts slots chosen sum rest ↔
        ∃ t, s = chosen ++ t ∧ t.Sublist rest ∧ t.length = slots ∧
          sum + (t.map fun x => (item x).cents).sum = target ∧ Within item opts s)
  | 0, chosen, sum, rest, s, _, hchosen => by
    rw [visits, List.mem_singleton]
    constructor
    · intro h
      split_ifs at h with hsum
      obtain rfl := Option.some.inj h
      exact ⟨[], by simp, List.nil_sublist _, rfl, by simpa using hsum, hchosen⟩
    · rintro ⟨t, rfl, -, hlength, hsum, -⟩
      obtain rfl := List.length_eq_zero_iff.mp hlength
      rw [if_pos (by simpa using hsum), List.append_nil]
  | slots + 1, chosen, sum, rest, s, hpos, hchosen => by
    rw [visits, List.mem_cons, mem_eachVisit]
    simp only [reduceCtorEq, false_or]
    constructor
    · rintro ⟨x, after, hsuffix, hlong, h⟩
      split_ifs at h with hx
      · obtain ⟨-, hspan⟩ := Bool.and_eq_true_iff.mp hx
        obtain ⟨t, rfl, hsub, hlength, hsum, hwithin⟩ :=
          (mem_visits (fun y hy => hpos y (hsuffix.subset (List.mem_cons_of_mem x hy)))
            ((spanOk_iff hchosen).mp hspan)).mp h
        refine ⟨x :: t, by simp, (hsub.cons_cons x).trans hsuffix.sublist, by simp [hlength], ?_,
          hwithin⟩
        rw [List.map_cons, List.sum_cons, ← hsum]
        exact (add_assoc _ _ _).symm
      · cases h
    · rintro ⟨t, rfl, hsub, hlength, hsum, hwithin⟩
      obtain ⟨x, t, rfl⟩ := List.exists_cons_of_length_eq_add_one hlength
      obtain ⟨after, hsuffix, hafter⟩ := exists_suffix_of_cons_sublist hsub
      have hslots : t.length = slots := by simpa using hlength
      have hposAfter : ∀ y ∈ after, 0 < (item y).cents := fun y hy =>
        hpos y (hsuffix.subset (List.mem_cons_of_mem x hy))
      have hwithinAfter : Within item opts (chosen ++ [x] ++ t) := by simpa using hwithin
      rw [List.map_cons, List.sum_cons] at hsum
      have hnonneg : 0 ≤ (t.map fun y => (item y).cents).sum := List.sum_nonneg (by
        intro y hy
        obtain ⟨z, hz, rfl⟩ := List.mem_map.mp hy
        exact (hposAfter z (hafter.subset hz)).le)
      have hbound := sum_le_suffixMax item hafter
      rw [hslots] at hbound
      have hadmits : admits item target opts slots chosen sum x after = true := by
        rw [admits, Bool.and_eq_true, Bool.and_eq_true, Bool.not_eq_true', Bool.not_eq_true',
          decide_eq_false_iff_not, decide_eq_false_iff_not]
        refine ⟨⟨by omega, by omega⟩, (spanOk_iff hchosen).mpr fun span hspan => ?_⟩
        exact (hwithinAfter span hspan).sublist (List.sublist_append_left _ _)
      refine ⟨x, after, hsuffix, ?_, ?_⟩
      · have := hafter.length_le
        omega
      · rw [if_pos hadmits]
        refine (mem_visits hposAfter ((spanOk_iff hchosen).mp ?_)).mpr
          ⟨t, by simp, hafter, hslots, by omega, hwithin⟩
        exact (Bool.and_eq_true_iff.mp hadmits).2

theorem prefix_of_mem_visits : ∀ {slots : ℕ} {chosen : List α} {sum : ℤ} {rest s : List α},
    some s ∈ visits item target opts slots chosen sum rest → chosen <+: s
  | 0, chosen, sum, rest, s, h => by
    rw [visits, List.mem_singleton] at h
    split_ifs at h
    obtain rfl := Option.some.inj h
    exact List.prefix_rfl
  | slots + 1, chosen, sum, rest, s, h => by
    rw [visits, List.mem_cons, mem_eachVisit] at h
    simp only [reduceCtorEq, false_or] at h
    obtain ⟨x, after, -, -, h⟩ := h
    split_ifs at h
    · exact (List.prefix_append chosen [x]).trans (prefix_of_mem_visits h)
    · cases h

theorem nodup_eachVisit {slotsLeft : ℕ} (chosen : List α)
    {f : α → List α → List (Option (List α))} : ∀ {rest : List α}, rest.Nodup →
      (∀ x after, x :: after <:+ rest → ((f x after).filterMap id).Nodup) →
        (∀ x after s, some s ∈ f x after → chosen ++ [x] <+: s) →
          ((eachVisit slotsLeft f rest).filterMap id).Nodup
  | [], _, _, _ => List.nodup_nil
  | x :: rest, hnodup, hf, hhead => by
    obtain ⟨hx, hrest⟩ := List.nodup_cons.mp hnodup
    rw [eachVisit]
    split_ifs
    · exact List.nodup_nil
    · rw [List.filterMap_append]
      refine List.nodup_append.mpr ⟨hf x rest List.suffix_rfl, nodup_eachVisit chosen hrest
        (fun y after h => hf y after (h.trans (List.suffix_cons x rest))) hhead, ?_⟩
      rintro s hs s' hs' rfl
      -- Sets found from different items differ at the place behind the chosen ones.
      have h1 : chosen ++ [x] <+: s := hhead x rest s (by simpa using hs)
      obtain ⟨y, after, hsuffix, -, hy⟩ := mem_eachVisit.mp (show some s ∈ _ by simpa using hs')
      have h2 := hhead y after s hy
      have heq : chosen ++ [x] = chosen ++ [y] :=
        (List.prefix_of_prefix_length_le h1 h2 (by simp)).eq_of_length (by simp)
      have hxy : x = y := by simpa using heq
      exact hx (hxy ▸ hsuffix.subset List.mem_cons_self)

theorem nodup_visits : ∀ {slots : ℕ} {chosen : List α} {sum : ℤ} {rest : List α}, rest.Nodup →
    ((visits item target opts slots chosen sum rest).filterMap id).Nodup
  | 0, chosen, sum, rest, _ => by
    rw [visits]
    split_ifs <;> simp
  | slots + 1, chosen, sum, rest, h => by
    rw [visits]
    refine nodup_eachVisit chosen h (fun x after hsuffix => ?_) fun x after s hs => ?_
    · split_ifs
      · exact nodup_visits (List.nodup_cons.mp (hsuffix.sublist.nodup h)).2
      · exact List.nodup_nil
    · split_ifs at hs
      · exact prefix_of_mem_visits hs
      · cases hs

end Sets

/-! ## All sizes -/

/-- The sets of one size, in the order of the search. -/
def setsOf (pool : List α) (k : ℕ) : List (List α) :=
  (visits item target opts k [] 0 pool).filterMap id

/-- The visits of all sizes, without a limit. -/
def allVisits (pool : List α) : List (Option (List α)) :=
  (searchSizes opts pool).flatMap fun k => visits item target opts k [] 0 pool

section Sizes

variable {item target opts} {pool : List α}

theorem mem_setsOf (hpos : ∀ x ∈ pool, 0 < (item x).cents) {k : ℕ} {s : List α} :
    s ∈ setsOf item target opts pool k ↔ s.Sublist pool ∧ s.length = k ∧
      (s.map fun x => (item x).cents).sum = target ∧ Within item opts s := by
  have hvisits : some s ∈ visits item target opts k [] 0 pool ↔ ∃ t, s = [] ++ t ∧
      t.Sublist pool ∧ t.length = k ∧ 0 + (t.map fun x => (item x).cents).sum = target ∧
        Within item opts s :=
    mem_visits hpos fun span _ => List.Pairwise.nil
  rw [setsOf, List.mem_filterMap]
  simp only [id, exists_eq_right, hvisits, List.nil_append, exists_eq_left', zero_add]

theorem mem_searchSizes {k : ℕ} :
    k ∈ searchSizes opts pool ↔ opts.minSize ≤ k ∧ k ≤ opts.maxSize ∧ k ≤ pool.length := by
  rw [searchSizes, List.mem_range'_1]
  omega

theorem mem_allVisits (hpos : ∀ x ∈ pool, 0 < (item x).cents) {s : List α} :
    s ∈ (allVisits item target opts pool).filterMap id ↔ IsExactSet item target opts pool s := by
  rw [allVisits, List.filterMap_flatMap, List.mem_flatMap]
  constructor
  · rintro ⟨k, hk, hs⟩
    obtain ⟨hsub, rfl, hsum, hspan⟩ := (mem_setsOf hpos).mp hs
    obtain ⟨hmin, hmax, -⟩ := mem_searchSizes.mp hk
    exact ⟨hsub, hmin, hmax, hsum, hspan⟩
  · rintro ⟨hsub, hmin, hmax, hsum, hspan⟩
    exact ⟨s.length, mem_searchSizes.mpr ⟨hmin, hmax, hsub.length_le⟩,
      (mem_setsOf hpos).mpr ⟨hsub, rfl, hsum, hspan⟩⟩

theorem nodup_allVisits (hpos : ∀ x ∈ pool, 0 < (item x).cents) (hnodup : pool.Nodup) :
    ((allVisits item target opts pool).filterMap id).Nodup := by
  rw [allVisits, List.filterMap_flatMap, List.nodup_flatMap]
  refine ⟨fun k _ => nodup_visits hnodup, ?_⟩
  refine List.Nodup.pairwise_of_forall_ne (List.nodup_range' ..) fun j _ k _ hjk => ?_
  intro s hj hk
  have hj' : s ∈ setsOf item target opts pool j := hj
  have hk' : s ∈ setsOf item target opts pool k := hk
  obtain ⟨-, hlj, -, -⟩ := (mem_setsOf hpos).mp hj'
  obtain ⟨-, hlk, -, -⟩ := (mem_setsOf hpos).mp hk'
  exact hjk (hlj.symm.trans hlk)

/-- Without `minimalOnly` the loop over the sizes is one search. -/
theorem sizesLoop_found (hall : opts.minimalOnly = false) : ∀ (ks : List ℕ) (st : Search (List α)),
    (sizesLoop item target opts pool ks st).found =
      (Search.run opts.maxExpansions opts.maxSets
        (ks.flatMap fun k => visits item target opts k [] 0 pool) st).2.found
  | [], _ => rfl
  | k :: ks, st => by
    rw [sizesLoop, List.flatMap_cons, Search.run_append, dfs_eq_run]
    set r := Search.run opts.maxExpansions opts.maxSets (visits item target opts k [] 0 pool) st
      with hr
    have hspent : r.2.Exhausted opts.maxExpansions → r.1 = false →
        (Search.run opts.maxExpansions opts.maxSets
          (ks.flatMap fun k => visits item target opts k [] 0 pool) r.2).2.found = r.2.found := by
      intro h _
      rw [Search.run_found, Search.left_of_exhausted h]
      simp
    have hstopped : r.1 = true → r.2.Exhausted opts.maxExpansions ∨
        opts.maxSets ≤ r.2.found.length := Search.run_stopped _ _
    rw [if_neg (by simp [hall])]
    cases hstop : r.1 with
    | true =>
      rw [if_pos (rfl : true = true)]
      split_ifs with henough hlimit hbudget
      · rfl
      · rfl
      · rfl
      · rcases hstopped hstop with (h | h) | h
        · exact absurd h hlimit
        · exact absurd h hbudget
        · exact absurd ⟨rfl, h⟩ henough
    | false =>
      rw [if_neg (fun h => Bool.false_ne_true h.1), if_neg Bool.false_ne_true]
      split_ifs with hlimit hbudget
      · exact (hspent (.inl hlimit) hstop).symm
      · exact (hspent (.inr hbudget) hstop).symm
      · exact sizesLoop_found hall ks r.2

/-- The loop over the sizes finds sets of the sizes, in their order. -/
theorem sizesLoop_sublist : ∀ (ks : List ℕ) (st : Search (List α)), ∃ l : List (List α),
    (sizesLoop item target opts pool ks st).found = st.found ++ l ∧
      l.Sublist (ks.flatMap (setsOf item target opts pool))
  | [], st => ⟨[], by simp [sizesLoop], List.nil_sublist _⟩
  | k :: ks, st => by
    have hrun := Search.run_found opts.maxExpansions opts.maxSets
      (visits item target opts k [] 0 pool) st
    rw [sizesLoop, dfs_eq_run]
    set r := Search.run opts.maxExpansions opts.maxSets (visits item target opts k [] 0 pool) st
      with hr
    set first := (((visits item target opts k [] 0 pool).take
      (Search.left opts.maxExpansions st)).filterMap id).take
        (max 1 (opts.maxSets - st.found.length)) with hfirst
    have hsub : first.Sublist (setsOf item target opts pool k) :=
      (List.take_sublist _ _).trans ((List.take_sublist _ _).filterMap id)
    have hthis : first.Sublist ((k :: ks).flatMap (setsOf item target opts pool)) := by
      rw [List.flatMap_cons]
      exact hsub.trans (List.sublist_append_left _ _)
    split_ifs
    · exact ⟨first, hrun, hthis⟩
    · exact ⟨first, hrun, hthis⟩
    · exact ⟨first, hrun, hthis⟩
    · exact ⟨first, hrun, hthis⟩
    · obtain ⟨l, hl, hlsub⟩ := sizesLoop_sublist ks r.2
      refine ⟨first ++ l, by rw [hl, hrun, List.append_assoc], ?_⟩
      rw [List.flatMap_cons]
      exact hsub.append hlsub

/-- With `minimalOnly` nothing is found of a size while smaller sets exist. -/
theorem sizesLoop_minimal (hmin : opts.minimalOnly = true) : ∀ (ks : List ℕ)
    (st : Search (List α)), st.found = [] →
      (sizesLoop item target opts pool ks st).found = [] ∨
        ∃ before k after, ks = before ++ k :: after ∧
          (∀ j ∈ before, setsOf item target opts pool j = []) ∧
            ∀ s ∈ (sizesLoop item target opts pool ks st).found,
              s ∈ setsOf item target opts pool k
  | [], st, h => .inl (by rw [sizesLoop, h])
  | k :: ks, st, h => by
    have hrun := Search.run_found opts.maxExpansions opts.maxSets
      (visits item target opts k [] 0 pool) st
    rw [sizesLoop, dfs_eq_run]
    set r := Search.run opts.maxExpansions opts.maxSets (visits item target opts k [] 0 pool) st
      with hr
    rw [h, List.nil_append] at hrun
    by_cases hfound : r.2.found = []
    · rw [if_neg (by simp [hfound])]
      split_ifs with henough hlimit hbudget
      · exact .inl hfound
      · exact .inl hfound
      · exact .inl hfound
      · have hgoes : r.1 = false := by
          by_contra hstop
          rw [Bool.not_eq_false] at hstop
          rcases Search.run_stopped _ _ hstop with (hspent | hspent) | hspent
          · exact hlimit hspent
          · exact hbudget hspent
          · exact henough ⟨hstop, hspent⟩
        have hnone := Search.run_found_of_not_stopped _ _ hgoes
        rw [← hr, hfound, h, List.nil_append] at hnone
        rcases sizesLoop_minimal hmin ks r.2 hfound with hnil | ⟨before, j, after, rfl, hbefore, hj⟩
        · exact .inl hnil
        · refine .inr ⟨k :: before, j, after, rfl, fun i hi => ?_, hj⟩
          rcases List.mem_cons.mp hi with rfl | hi
          · exact hnone.symm
          · exact hbefore i hi
    · rw [if_pos ⟨hmin, hfound⟩]
      refine .inr ⟨[], k, ks, rfl, by simp, fun s hs => ?_⟩
      rw [hrun] at hs
      exact ((List.take_sublist _ _).trans ((List.take_sublist _ _).filterMap id)).subset hs

end Sizes

/-! ## Right and alone -/

/-- What the callers take the returned sets for. -/
structure SumSetsOk (pool : List α) (out : List (List α)) : Prop where
  exact : ∀ s ∈ out, IsExactSet item target opts pool s
  nodup : out.Nodup
  minimal : opts.minimalOnly = true → ∀ s ∈ out, ∀ s', IsExactSet item target opts pool s' →
    s.length ≤ s'.length
  unique : opts.minimalOnly = false → opts.maxSets = 2 → out.length = 1 →
    ∃! s, IsExactSet item target opts pool s

/-- The first limit is reached at or behind the visit that finds the first set and before the one
that finds the second. -/
def EndsBetween (pool : List α) : Prop :=
  opts.minimalOnly = false ∧ opts.maxSets = 2 ∧
    (((allVisits item target opts pool).take
      ((searchStart opts : Search (List α)).left opts.maxExpansions)).filterMap id).length = 1 ∧
    1 < ((allVisits item target opts pool).filterMap id).length

section Right

variable {item target opts} {pool : List α}

/-- What is found is what is found without the two early ends, of which neither finds a set. -/
theorem findExactSumSets_found (htarget : 0 < target) :
    (findExactSumSets item target opts pool).1 = [] ∧
        ((searchStart opts : Search (List α)).left opts.maxExpansions = 0 ∨
          allVisits item target opts pool = []) ∨
      (findExactSumSets item target opts pool).1 =
        (sizesLoop item target opts pool (searchSizes opts pool) (searchStart opts)).found := by
  unfold findExactSumSets
  split_ifs with hshort hbudget
  · refine .inl ⟨rfl, .inr ?_⟩
    have hempty : searchSizes opts pool = [] := List.eq_nil_iff_forall_not_mem.mpr fun k hk => by
      obtain ⟨hmin, -, hle⟩ := mem_searchSizes.mp hk
      omega
    rw [allVisits, hempty, List.flatMap_nil]
  · exact .inl ⟨rfl, .inl (Search.left_of_exhausted (.inr hbudget))⟩
  · exact .inr rfl

theorem found_of_all (htarget : 0 < target) (hall : opts.minimalOnly = false) :
    (findExactSumSets item target opts pool).1 =
      (((allVisits item target opts pool).take
        ((searchStart opts : Search (List α)).left opts.maxExpansions)).filterMap id).take
          (max 1 opts.maxSets) := by
  rcases findExactSumSets_found htarget with ⟨hnil, hend⟩ | hfound
  · rw [hnil]
    rcases hend with h | h
    · rw [h]
      simp
    · rw [h]
      simp
  · rw [hfound, sizesLoop_found hall, Search.run_found]
    rfl

theorem found_sublist (htarget : 0 < target) :
    (findExactSumSets item target opts pool).1.Sublist
      ((allVisits item target opts pool).filterMap id) := by
  rcases findExactSumSets_found htarget with ⟨hnil, -⟩ | hfound
  · rw [hnil]
    exact List.nil_sublist _
  · have hloop : ∃ l : List (List α),
        (sizesLoop item target opts pool (searchSizes opts pool) (searchStart opts)).found =
            (searchStart opts).found ++ l ∧
          l.Sublist ((searchSizes opts pool).flatMap (setsOf item target opts pool)) :=
      sizesLoop_sublist _ _
    obtain ⟨l, hl, hsub⟩ := hloop
    rw [hfound, hl, allVisits, List.filterMap_flatMap]
    exact hsub

/-- With `minimalOnly` the sets found are of one size, and no exact-sum set is smaller. -/
theorem found_minimal (htarget : 0 < target) (hpos : ∀ x ∈ pool, 0 < (item x).cents)
    (hmin : opts.minimalOnly = true) : ∀ s ∈ (findExactSumSets item target opts pool).1,
      ∀ s', IsExactSet item target opts pool s' → s.length ≤ s'.length := by
  intro s hs s' hs'
  rcases findExactSumSets_found htarget with ⟨hnil, -⟩ | hfound
  · rw [hnil] at hs
    cases hs
  rw [hfound] at hs
  rcases sizesLoop_minimal hmin (searchSizes opts pool) (searchStart opts) rfl with
    hnil | ⟨before, k, after, hsizes, hbefore, hk⟩
  · rw [hnil] at hs
    cases hs
  rw [((mem_setsOf hpos).mp (hk s hs)).2.1]
  by_contra hsmaller
  rw [not_le] at hsmaller
  have hsize : s'.length ∈ before ++ k :: after := by
    rw [← hsizes]
    exact mem_searchSizes.mpr ⟨hs'.minSize, hs'.maxSize, hs'.sublist.length_le⟩
  have hsorted : (before ++ k :: after).Pairwise (· < ·) := by
    rw [← hsizes]
    exact List.pairwise_lt_range' ..
  have hset : s' ∈ setsOf item target opts pool s'.length :=
    (mem_setsOf hpos).mpr ⟨hs'.sublist, rfl, hs'.sum, hs'.span⟩
  rcases List.mem_append.mp hsize with h | h
  · rw [hbefore _ h] at hset
    cases hset
  · rcases List.mem_cons.mp h with h | h
    · omega
    · have := List.rel_of_pairwise_cons (List.pairwise_append.mp hsorted).2.1 h
      omega

theorem existsUnique_of_length {l : List α} (hnodup : l.Nodup) :
    l.length = 1 ↔ ∃! x, x ∈ l := by
  constructor
  · intro h
    obtain ⟨x, rfl⟩ := List.length_eq_one_iff.mp h
    exact ⟨x, List.mem_singleton_self x, fun y hy => List.mem_singleton.mp hy⟩
  · rintro ⟨x, hx, hall⟩
    match l, hx, hall, hnodup with
    | [y], _, _, _ => rfl
    | y :: z :: rest, _, hall, hnodup =>
      have hyz : y = z := (hall y (by simp)).trans (hall z (by simp)).symm
      exact absurd hyz fun h => (List.nodup_cons.mp hnodup).1 (h ▸ List.mem_cons_self)

/-- One set that is found alone is the only one just when the budget does not end between the
first two. -/
theorem found_unique_iff (htarget : 0 < target) (hpos : ∀ x ∈ pool, 0 < (item x).cents)
    (hnodup : pool.Nodup) (hall : opts.minimalOnly = false) (htwo : opts.maxSets = 2) :
    ((findExactSumSets item target opts pool).1.length = 1 →
      ∃! s, IsExactSet item target opts pool s) ↔ ¬EndsBetween item target opts pool := by
  have hunique : (∃! s, IsExactSet item target opts pool s) ↔
      ((allVisits item target opts pool).filterMap id).length = 1 := by
    rw [existsUnique_of_length (nodup_allVisits hpos hnodup)]
    exact existsUnique_congr fun s => (mem_allVisits hpos).symm
  have hreach := ((List.take_sublist ((searchStart opts : Search (List α)).left opts.maxExpansions)
    (allVisits item target opts pool)).filterMap id).length_le
  have htake : ∀ l : List (List α), (l.take (max 1 2)).length = 1 ↔ l.length = 1 := fun l => by
    rw [List.length_take]
    omega
  rw [hunique, found_of_all htarget hall, htwo, htake]
  constructor
  · rintro h ⟨-, -, hone, hmore⟩
    have := h hone
    omega
  · intro hends hone
    by_contra hmore
    exact hends ⟨hall, htwo, hone, by omega⟩

/-- What is returned is right, and a set alone is the only one, just when the budget does not end
between the first two. -/
theorem findExactSumSets_correct (htarget : 0 < target)
    (hpos : ∀ x ∈ pool, 0 < (item x).cents) (hnodup : pool.Nodup) :
    SumSetsOk item target opts pool (findExactSumSets item target opts pool).1 ↔
      ¬EndsBetween item target opts pool := by
  constructor
  · intro hok hends
    exact (found_unique_iff htarget hpos hnodup hends.1 hends.2.1).mp
      (hok.unique hends.1 hends.2.1) hends
  · intro hends
    have hsub : (findExactSumSets item target opts pool).1.Sublist
        ((allVisits item target opts pool).filterMap id) := found_sublist htarget
    exact
      { exact := fun s hs => (mem_allVisits hpos).mp (hsub.subset hs)
        nodup := hsub.nodup (nodup_allVisits hpos hnodup)
        minimal := found_minimal htarget hpos
        unique := fun hall htwo => (found_unique_iff htarget hpos hnodup hall htwo).mpr hends }

end Right

/-- Items of one cent and a day each, as many-to-one matching is called with them. -/
def centItem (n : ℕ) : SumPoolItem := ⟨1, n⟩

/-- The limits of many-to-one matching, with `left` of the shared budget. -/
def manyToOne (left : ℤ) : SumSetOptions :=
  ⟨2, 5, 2, 200000, false, some 7, some left⟩

theorem findExactSumSets_correct_pair :
    SumSetsOk centItem 2 (manyToOne 100) [0, 1]
      (findExactSumSets centItem 2 (manyToOne 100) [0, 1]).1 ↔
        ¬EndsBetween centItem 2 (manyToOne 100) [0, 1] :=
  findExactSumSets_correct (by decide) (by decide) (by decide)

/-- Three sets of two cents exist, and the budget ends after the first. -/
theorem findExactSumSets_one_of_three :
    (findExactSumSets centItem 2 (manyToOne 3) [0, 1, 2]).1 = [[0, 1]] ∧
      ¬SumSetsOk centItem 2 (manyToOne 3) [0, 1, 2]
        (findExactSumSets centItem 2 (manyToOne 3) [0, 1, 2]).1 := by
  have hout : (findExactSumSets centItem 2 (manyToOne 3) [0, 1, 2]).1 = [[0, 1]] := by decide
  refine ⟨hout, fun hok => ?_⟩
  obtain ⟨s, -, hs⟩ := hok.unique rfl rfl (by rw [hout]; rfl)
  have h1 : IsExactSet centItem 2 (manyToOne 3) [0, 1, 2] [0, 1] :=
    ⟨by decide, by decide, by decide, by decide, by simp [Within, manyToOne, centItem]⟩
  have h2 : IsExactSet centItem 2 (manyToOne 3) [0, 1, 2] [0, 2] :=
    ⟨by decide, by decide, by decide, by decide, by simp [Within, manyToOne, centItem]⟩
  have := (hs _ h1).trans (hs _ h2).symm
  revert this
  decide

end MyBooks
