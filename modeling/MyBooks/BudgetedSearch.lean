import Mathlib.Data.List.Basic
import Mathlib.Data.Nat.Init
import Mathlib.Order.Lattice

/-!
# Searches on a budget

A search visits places in an order of its own and notes what it finds at some of them. It is stopped
by a limit of its own, by a budget that searches share, or by having found enough. What it has found
is what the places within both limits hold, cut where it was enough (`run_found`).
-/

namespace MyBooks

/-- A search under way. -/
structure Search (β : Type*) where
  expansions : ℕ
  /-- What the shared budget has left, if there is one. -/
  remaining : Option ℤ
  found : List β

namespace Search

variable {β : Type*} (maxExpansions maxFound : ℕ)

/-- Pays for a visit. `true` stops the search. -/
def enter (st : Search β) : Bool × Search β :=
  let st := { st with expansions := st.expansions + 1 }
  if maxExpansions < st.expansions then (true, st)
  else match st.remaining with
    | none => (false, st)
    | some r => (decide (r - 1 < 0), { st with remaining := some (r - 1) })

/-- Notes what a visit found. -/
def note (st : Search β) : Option β → Bool × Search β
  | none => (false, st)
  | some b => (decide (maxFound ≤ st.found.length + 1), { st with found := st.found ++ [b] })

/-- A visit: it is paid for and its find is noted. -/
def visit (st : Search β) (v : Option β) : Bool × Search β :=
  if (enter maxExpansions st).1 then enter maxExpansions st
  else note maxFound (enter maxExpansions st).2 v

/-- The visits of a search, one after another. -/
def run : List (Option β) → Search β → Bool × Search β
  | [], st => (false, st)
  | v :: vs, st =>
    if (visit maxExpansions maxFound st v).1 then visit maxExpansions maxFound st v
    else run vs (visit maxExpansions maxFound st v).2

/-- The visits that are left to a search. -/
def left (st : Search β) : ℕ :=
  st.remaining.elim (maxExpansions - st.expansions) fun r =>
    min (maxExpansions - st.expansions) r.toNat

variable {maxExpansions maxFound} {st st' : Search β}

theorem run_append : ∀ (vs ws : List (Option β)) (st : Search β),
    run maxExpansions maxFound (vs ++ ws) st =
      if (run maxExpansions maxFound vs st).1 then run maxExpansions maxFound vs st
      else run maxExpansions maxFound ws (run maxExpansions maxFound vs st).2
  | [], _, _ => rfl
  | v :: vs, ws, st => by
    rw [List.cons_append, run, run, run_append vs ws]
    split_ifs with h
    · rfl
    · rfl
    · rfl

theorem run_singleton (v : Option β) (st : Search β) :
    run maxExpansions maxFound [v] st = visit maxExpansions maxFound st v := by
  rw [run, run]
  split_ifs with h
  · rfl
  · exact Prod.ext (Bool.eq_false_iff.mpr h).symm rfl

/-- A visit that finds nothing is paid for. -/
theorem run_cons_none (vs : List (Option β)) (st : Search β) :
    run maxExpansions maxFound (none :: vs) st =
      if (enter maxExpansions st).1 then enter maxExpansions st
      else run maxExpansions maxFound vs (enter maxExpansions st).2 := by
  rw [run, visit]
  by_cases h : (enter maxExpansions st).1 = true
  · rw [if_pos h, if_pos h]
  · rw [if_neg h, if_neg h, note, if_neg Bool.false_ne_true]

theorem enter_found (maxExpansions : ℕ) (st : Search β) :
    (enter maxExpansions st).2.found = st.found := by
  unfold enter
  dsimp only
  split_ifs
  · rfl
  · cases st.remaining <;> rfl

theorem enter_stops_iff (maxExpansions : ℕ) (st : Search β) :
    (enter maxExpansions st).1 = true ↔ left maxExpansions st = 0 := by
  unfold enter left
  dsimp only
  split_ifs with h
  · cases st.remaining with
    | none => simp; omega
    | some r => simp; omega
  · cases st.remaining with
    | none => simp; omega
    | some r => simp; omega

theorem left_enter (maxExpansions : ℕ) (st : Search β) :
    left maxExpansions (enter maxExpansions st).2 = left maxExpansions st - 1 := by
  unfold enter left
  dsimp only
  split_ifs with h
  · cases st.remaining with
    | none => simp; omega
    | some r => simp; omega
  · cases st.remaining with
    | none => simp; omega
    | some r => simp; omega

/-- A search is at its end when a limit is reached. -/
def Exhausted (maxExpansions : ℕ) (st : Search β) : Prop :=
  maxExpansions < st.expansions ∨ ∃ r ∈ st.remaining, r ≤ 0

theorem left_of_exhausted (h : st.Exhausted maxExpansions) : left maxExpansions st = 0 := by
  unfold left
  rcases h with h | ⟨r, hr, h⟩
  · cases st.remaining with
    | none => exact Nat.sub_eq_zero_of_le h.le
    | some r =>
      have hzero : maxExpansions - st.expansions = 0 := Nat.sub_eq_zero_of_le h.le
      simp [hzero]
  · rw [Option.mem_def.mp hr]
    simp [Int.toNat_of_nonpos h]

theorem exhausted_of_enter (h : (enter maxExpansions st).1 = true) :
    (enter maxExpansions st).2.Exhausted maxExpansions := by
  unfold enter Exhausted at *
  dsimp only at *
  split_ifs at * with hlimit
  · exact .inl hlimit
  · cases hr : st.remaining with
    | none => rw [hr] at h; cases h
    | some r =>
      rw [hr] at h
      exact .inr ⟨r - 1, rfl, (of_decide_eq_true h).le⟩

theorem filterMap_id_cons_some (b : β) (vs : List (Option β)) :
    (some b :: vs).filterMap id = b :: vs.filterMap id := rfl

/-- What a search within a budget finds: what is in reach, until it is enough. -/
theorem run_found (maxExpansions maxFound : ℕ) : ∀ (vs : List (Option β)) (st : Search β),
    (run maxExpansions maxFound vs st).2.found = st.found ++
      (((vs.take (left maxExpansions st)).filterMap id).take (max 1 (maxFound - st.found.length)))
  | [], st => by simp [run]
  | v :: vs, st => by
    have hfound := enter_found maxExpansions st
    have hstops := enter_stops_iff maxExpansions st
    have hleft := left_enter maxExpansions st
    rw [run, visit]
    by_cases hstop : (enter maxExpansions st).1 = true
    · rw [if_pos hstop, if_pos hstop, hfound, hstops.mp hstop]
      simp
    · have hpos : left maxExpansions st = left maxExpansions (enter maxExpansions st).2 + 1 := by
        have : left maxExpansions st ≠ 0 := fun h => hstop (hstops.mpr h)
        omega
      rw [if_neg hstop, hpos, List.take_succ_cons]
      cases v with
      | none =>
        rw [note, if_neg Bool.false_ne_true, run_found _ _ vs, hfound]
        rfl
      | some b =>
        rw [note, filterMap_id_cons_some, hfound]
        dsimp only
        split_ifs with hfull
        · have : max 1 (maxFound - st.found.length) = 1 := by
            have := of_decide_eq_true hfull
            omega
          rw [this]
          simp
        · have hmore : max 1 (maxFound - st.found.length) =
              max 1 (maxFound - (st.found ++ [b]).length) + 1 := by
            have := of_decide_eq_false (Bool.eq_false_iff.mpr hfull)
            rw [List.length_append, List.length_singleton]
            omega
          rw [hmore, List.take_succ_cons, run_found _ _ vs]
          simp [left]

/-- A search that was not stopped has been everywhere. -/
theorem run_found_of_not_stopped : ∀ (vs : List (Option β)) (st : Search β),
    (run maxExpansions maxFound vs st).1 = false →
      (run maxExpansions maxFound vs st).2.found = st.found ++ vs.filterMap id
  | [], st, _ => by simp [run]
  | v :: vs, st, h => by
    have hstop : ¬(visit maxExpansions maxFound st v).1 = true := fun hstop => by
      rw [run, if_pos hstop, hstop] at h
      cases h
    rw [run, if_neg hstop] at h ⊢
    rw [run_found_of_not_stopped vs _ h]
    rw [visit] at hstop ⊢
    have henter : ¬(enter maxExpansions st).1 = true := fun henter => by
      rw [if_pos henter] at hstop
      exact hstop henter
    rw [if_neg henter]
    cases v with
    | none =>
      rw [note, enter_found]
      rfl
    | some b =>
      rw [note, filterMap_id_cons_some]
      dsimp only
      rw [enter_found, List.append_assoc, List.singleton_append]

/-- A search that was stopped has found enough or reached a limit. -/
theorem run_stopped : ∀ (vs : List (Option β)) (st : Search β),
    (run maxExpansions maxFound vs st).1 = true →
      (run maxExpansions maxFound vs st).2.Exhausted maxExpansions ∨
        maxFound ≤ (run maxExpansions maxFound vs st).2.found.length
  | [], _, h => by cases h
  | v :: vs, st, h => by
    rw [run] at h ⊢
    split_ifs at h ⊢ with hstop
    · rw [visit] at hstop ⊢
      split_ifs at hstop ⊢ with henter
      · exact .inl (exhausted_of_enter henter)
      · cases v with
        | none => cases hstop
        | some b => exact .inr (by simpa [note] using hstop)
    · exact run_stopped vs _ h

end Search

end MyBooks
