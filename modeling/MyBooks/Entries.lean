import MyBooks.Tally
import Mathlib.Data.List.Nodup
import Mathlib.Data.List.Basic
import Mathlib.Tactic.Ring
import Mathlib.Tactic.Abel
import Mathlib.Algebra.BigOperators.Group.List.Basic

/-!
# Maps that keep the order of insertion

A map as the list of its entries. Setting a key that is there keeps its place, a new key goes last.
A loop that updates one key after another can be read key by key (`get?_foldl_update`). In a map of
amounts, adding to a key changes a weighted total by what was added (`weigh_add`).
-/

namespace MyBooks

/-- A map from `κ` to `ν`, its entries in the order they were first set. -/
abbrev Entries (κ ν : Type*) := List (κ × ν)

namespace Entries

variable {κ ν α : Type*} [DecidableEq κ]

def get? : Entries κ ν → κ → Option ν
  | [], _ => none
  | (k', v) :: m, k => if k' = k then some v else get? m k

def set : Entries κ ν → κ → ν → Entries κ ν
  | [], k, v => [(k, v)]
  | (k', v') :: m, k, v => if k' = k then (k, v) :: m else (k', v') :: set m k v

def update (m : Entries κ ν) (k : κ) (f : Option ν → ν) : Entries κ ν := m.set k (f (m.get? k))

def keys (m : Entries κ ν) : List κ := m.map Prod.fst

variable {m : Entries κ ν} {k k' : κ} {v : ν}

@[simp] theorem get?_nil : get? ([] : Entries κ ν) k = none := rfl

theorem get?_cons (e : κ × ν) :
    get? (e :: m) k = if e.1 = k then some e.2 else get? m k := rfl

omit [DecidableEq κ] in
@[simp] theorem keys_nil : keys ([] : Entries κ ν) = [] := rfl

omit [DecidableEq κ] in
@[simp] theorem keys_cons (e : κ × ν) : keys (e :: m) = e.1 :: keys m := rfl

theorem get?_set : ∀ m : Entries κ ν, get? (m.set k v) k' = if k = k' then some v else m.get? k'
  | [] => rfl
  | (k₁, v₁) :: m => by
    have ih := get?_set m
    by_cases h1 : k₁ = k
    · subst h1
      rw [set, if_pos rfl, get?_cons, get?_cons]
      split_ifs <;> rfl
    · rw [set, if_neg h1, get?_cons, get?_cons, ih]
      by_cases h2 : k = k'
      · subst h2
        rw [if_neg h1, if_pos rfl, if_pos rfl]
      · simp only [if_neg h2]

theorem get?_map {ν' : Type*} (f : ν → ν') : ∀ m : Entries κ ν,
    get? (m.map fun e => (e.1, f e.2)) k = (m.get? k).map f
  | [] => rfl
  | (k₁, v₁) :: m => by
    rw [List.map_cons, get?_cons, get?_cons, get?_map f m]
    split_ifs <;> rfl

theorem get?_update (f : Option ν → ν) :
    get? (m.update k f) k' = if k = k' then some (f (m.get? k')) else m.get? k' := by
  rw [update, get?_set]
  split_ifs with h
  · rw [h]
  · rfl

theorem keys_set : ∀ m : Entries κ ν,
    keys (m.set k v) = if k ∈ keys m then keys m else keys m ++ [k]
  | [] => rfl
  | (k₁, v₁) :: m => by
    have ih := keys_set m
    by_cases h1 : k₁ = k
    · subst h1
      rw [set, if_pos rfl, keys_cons, keys_cons, if_pos (List.mem_cons_self ..)]
    · rw [set, if_neg h1, keys_cons, keys_cons, ih]
      by_cases h2 : k ∈ keys m
      · rw [if_pos h2, if_pos (List.mem_cons_of_mem _ h2)]
      · have : k ∉ k₁ :: keys m := by
          simp only [List.mem_cons, not_or]
          exact ⟨fun h => h1 h.symm, h2⟩
        rw [if_neg h2, if_neg this, List.cons_append]

theorem mem_set {e : κ × ν} : ∀ {m : Entries κ ν}, e ∈ m.set k v → e ∈ m ∨ e = (k, v)
  | [], h => .inr (List.mem_singleton.mp h)
  | e₁ :: m, h => by
    rw [set] at h
    split_ifs at h
    · exact (List.mem_cons.mp h).elim .inr fun h => .inl (List.mem_cons_of_mem _ h)
    · rcases List.mem_cons.mp h with rfl | h
      · exact .inl List.mem_cons_self
      · exact (mem_set h).imp_left (List.mem_cons_of_mem _)

theorem set_of_notMem : ∀ {m : Entries κ ν}, k ∉ keys m → m.set k v = m ++ [(k, v)]
  | [], _ => rfl
  | (k₁, v₁) :: m, h => by
    rw [keys_cons, List.mem_cons, not_or] at h
    rw [set, if_neg (Ne.symm h.1), set_of_notMem h.2, List.cons_append]

theorem nodup_keys_set (h : (keys m).Nodup) : (keys (m.set k v)).Nodup := by
  rw [keys_set]
  split_ifs with hk
  · exact h
  · exact List.nodup_append.mpr ⟨h, List.nodup_singleton k, fun a ha b hb => by
      rw [List.mem_singleton.mp hb]
      rintro rfl
      exact hk ha⟩

theorem get?_eq_some : ∀ {m : Entries κ ν}, (keys m).Nodup → (m.get? k = some v ↔ (k, v) ∈ m)
  | [], _ => by simp
  | (k₁, v₁) :: m, h => by
    have hnd := List.nodup_cons.mp h
    rw [get?_cons, List.mem_cons]
    split_ifs with h1
    · simp only at h1
      subst h1
      simp only [Option.some.injEq, Prod.mk.injEq, true_and]
      refine ⟨fun h => .inl h.symm, fun h => h.elim Eq.symm fun hm => ?_⟩
      exact absurd (List.mem_map_of_mem (f := Prod.fst) hm) hnd.1
    · rw [get?_eq_some hnd.2]
      refine ⟨.inr, fun h => h.resolve_left ?_⟩
      rintro ⟨rfl, rfl⟩
      exact h1 rfl

theorem mem_of_get? : ∀ {m : Entries κ ν}, m.get? k = some v → (k, v) ∈ m
  | (k₁, v₁) :: m, h => by
    rw [get?_cons] at h
    split_ifs at h with h1
    · obtain rfl := Option.some.inj h
      exact h1 ▸ List.mem_cons_self
    · exact List.mem_cons_of_mem _ (mem_of_get? h)

theorem mem_keys_of_get? (h : m.get? k = some v) : k ∈ keys m :=
  List.mem_map.mpr ⟨_, mem_of_get? h, rfl⟩

theorem get?_of_notMem (h : k ∉ keys m) : m.get? k = none := by
  by_contra hsome
  obtain ⟨v, hv⟩ := Option.ne_none_iff_exists'.mp hsome
  exact h (mem_keys_of_get? hv)

/-- A loop of updates, read at one key. -/
theorem get?_foldl_update (key : α → κ) (f : α → Option ν → ν) :
    ∀ (xs : List α) (m : Entries κ ν),
      get? (xs.foldl (fun m x => m.update (key x) (f x)) m) k =
        (xs.filter (fun x => key x = k)).foldl (fun o x => some (f x o)) (m.get? k)
  | [], _ => rfl
  | x :: xs, m => by
    rw [List.foldl_cons, get?_foldl_update key f xs, get?_update, List.filter_cons]
    by_cases h : key x = k
    · simp [h]
    · simp [h]

theorem nodup_keys_foldl_update (key : α → κ) (f : α → Option ν → ν) :
    ∀ (xs : List α) {m : Entries κ ν}, (keys m).Nodup →
      (xs.foldl (fun m x => m.update (key x) (f x)) m).keys.Nodup
  | [], _, h => h
  | _ :: xs, _, h => nodup_keys_foldl_update key f xs (nodup_keys_set h)

/-- A loop of updates of one key makes one entry. -/
theorem foldl_update_same (key : α → κ) (f : α → Option ν → ν) : ∀ (xs : List α) (o : Option ν),
    (∀ x ∈ xs, key x = k) →
      xs.foldl (fun m x => update m (key x) (f x)) (o.elim [] fun v => [(k, v)]) =
        (xs.foldl (fun o x => some (f x o)) o).elim [] fun v => [(k, v)]
  | [], _, _ => rfl
  | x :: xs, o, h => by
    have hx := h x List.mem_cons_self
    have hstep : update (o.elim [] fun v => [(k, v)]) (key x) (f x) =
        (some (f x o)).elim [] fun v => [(k, v)] := by
      cases o with
      | none => simp [update, set, hx]
      | some v => simp [update, set, get?_cons, hx]
    rw [List.foldl_cons, List.foldl_cons, hstep]
    exact foldl_update_same key f xs _ fun y hy => h y (List.mem_cons_of_mem _ hy)

/-- Setting keys that all differ lists the entries. -/
theorem foldl_set_of_nodup (key : α → κ) (f : α → ν) : ∀ (xs : List α) (m : Entries κ ν),
    (m.keys ++ xs.map key).Nodup →
      xs.foldl (fun m x => m.set (key x) (f x)) m = m ++ xs.map fun x => (key x, f x)
  | [], m, _ => by simp
  | x :: xs, m, h => by
    have hx : key x ∉ m.keys := fun hk =>
      (List.nodup_append.mp h).2.2 _ hk _ List.mem_cons_self rfl
    have hset : m.set (key x) (f x) = m ++ [(key x, f x)] := set_of_notMem hx
    rw [List.foldl_cons, hset, foldl_set_of_nodup key f xs]
    · simp
    · simpa [keys] using h

/-- Setting a key exchanges its entry in a sum over the entries. -/
theorem sum_set {M : Type*} [AddCommGroup M] (f : κ × ν → M) : ∀ m : Entries κ ν,
    ((m.set k v).map f).sum = (m.map f).sum + f (k, v) - (m.get? k).elim 0 fun v' => f (k, v')
  | [] => by simp [set]
  | (k₁, v₁) :: m => by
    rw [get?_cons, set]
    by_cases h : k₁ = k
    · subst h
      rw [if_pos rfl, if_pos rfl, List.map_cons, List.map_cons, List.sum_cons, List.sum_cons]
      simp only [Option.elim_some]
      abel
    · rw [if_neg h, if_neg h, List.map_cons, List.map_cons, List.sum_cons, List.sum_cons, sum_set f m]
      abel

/-- Amounts read key by key come to the sum of the entries, where each key is read once. -/
theorem sum_getD {M : Type*} [AddCommMonoid M] : ∀ {m : Entries κ M} {ks : List κ}, (keys m).Nodup →
    ks.Nodup → keys m ⊆ ks → (ks.map fun k => (m.get? k).getD 0).sum = (m.map Prod.snd).sum
  | [], ks, _, _, _ => by simp
  | (k, v) :: m, ks, hm, hks, hsub => by
    obtain ⟨hk, hm⟩ := List.nodup_cons.mp hm
    obtain ⟨hmem, hsub⟩ := List.cons_subset.mp hsub
    have hnone : get? m k = none := get?_of_notMem hk
    have hread : ∀ k' ∈ ks, (get? ((k, v) :: m) k').getD 0 =
        (if k = k' then v else 0) + (get? m k').getD 0 := by
      intro k' _
      rw [get?_cons]
      by_cases h : k = k'
      · subst h
        simp [hnone]
      · simp [h]
    rw [List.map_congr_left hread, List.sum_map_add, sum_map_key v hks hmem, sum_getD hm hks hsub,
      List.map_cons, List.sum_cons]

section Amounts

/-- Adds to a key's amount, which starts at zero. -/
def add (m : Entries κ ℤ) (k : κ) (v : ℤ) : Entries κ ℤ := m.update k fun o => o.getD 0 + v

/-- The amounts of the keys, each times a weight of its key. -/
def weigh (w : κ → ℤ) (m : Entries κ ℤ) : ℤ := (m.map fun e => e.2 * w e.1).sum

/-- The amounts of all keys. -/
def total (m : Entries κ ℤ) : ℤ := (m.map Prod.snd).sum

variable {m : Entries κ ℤ} {w : κ → ℤ} {v : ℤ}

omit [DecidableEq κ] in
theorem total_eq_weigh : total m = weigh (fun _ => 1) m := by simp [total, weigh]

theorem weigh_set : ∀ m : Entries κ ℤ,
    weigh w (m.set k v) = weigh w m + (v - (m.get? k).getD 0) * w k
  | [] => by simp [weigh, set]
  | (k₁, v₁) :: m => by
    rw [set, get?_cons]
    by_cases h : k₁ = k
    · subst h
      simp only [if_true, weigh, List.map_cons, List.sum_cons, Option.getD_some]
      ring
    · have ih := weigh_set m
      unfold weigh at ih
      rw [if_neg h, if_neg h, weigh, List.map_cons, List.sum_cons, ih, weigh, List.map_cons,
        List.sum_cons]
      ring

theorem weigh_add : weigh w (m.add k v) = weigh w m + v * w k := by
  rw [add, update, weigh_set]
  ring

/-- Keys set to one count their weights. -/
theorem weigh_foldl_one : ∀ (ks : List κ) (m : Entries κ ℤ), (m.keys ++ ks).Nodup →
    weigh w (ks.foldl (fun m k => m.set k 1) m) = weigh w m + (ks.map w).sum
  | [], m, _ => by simp
  | k :: ks, m, h => by
    have hk : k ∉ m.keys := fun hk => (List.nodup_append.mp h).2.2 _ hk _ List.mem_cons_self rfl
    rw [List.foldl_cons, set_of_notMem hk, weigh_foldl_one ks]
    · simp only [weigh, List.map_append, List.sum_append, List.map_cons, List.map_nil, List.sum_cons,
        List.sum_nil]
      ring
    · simpa [keys] using h

theorem get?_add : (m.add k v).get? k' = if k = k' then some ((m.get? k').getD 0 + v)
    else m.get? k' := get?_update _

theorem keys_add : (m.add k v).keys = if k ∈ m.keys then m.keys else m.keys ++ [k] := keys_set m

end Amounts

end Entries

end MyBooks
