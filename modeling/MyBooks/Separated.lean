import Mathlib.Data.List.Basic

/-!
# Texts between separators

What stands in a text that is put together with a separator, or taken apart at it.
-/

namespace MyBooks

theorem mem_intercalate {x c : Char} : ∀ {ls : List (List Char)}, c ∈ [x].intercalate ls →
    c = x ∨ ∃ l ∈ ls, c ∈ l
  | [], h => by cases h
  | [l], h => by
    rw [List.intercalate_singleton] at h
    exact .inr ⟨l, List.mem_singleton_self l, h⟩
  | l :: l' :: ls, h => by
    rw [List.intercalate_cons_cons] at h
    rcases List.mem_append.mp h with h | h
    · rcases List.mem_append.mp h with h | h
      · exact .inr ⟨l, List.mem_cons_self, h⟩
      · exact .inl (List.mem_singleton.mp h)
    · exact (mem_intercalate h).imp_right fun ⟨m, hm, hc⟩ => ⟨m, List.mem_cons_of_mem l hm, hc⟩

theorem intercalate_append {x : Char} {ls' : List (List Char)} (h' : ls' ≠ []) :
    ∀ {ls : List (List Char)}, ls ≠ [] →
      [x].intercalate (ls ++ ls') = [x].intercalate ls ++ x :: [x].intercalate ls'
  | [l], _ => by
    obtain ⟨l', ls', rfl⟩ := List.exists_cons_of_ne_nil h'
    rw [List.singleton_append, List.intercalate_cons_cons, List.intercalate_singleton]
    simp
  | l :: m :: ls, _ => by
    rw [List.cons_append, List.cons_append, List.intercalate_cons_cons, ← List.cons_append,
      intercalate_append h' (List.cons_ne_nil m ls), List.intercalate_cons_cons]
    simp only [List.append_assoc]

/-- What stands in a text stands between two separators. -/
theorem mem_splitOn {x c : Char} {t : List Char} (h : c ∈ t) :
    c = x ∨ ∃ p ∈ t.splitOn x, c ∈ p := by
  rw [show t = [x].intercalate (t.splitOn x) from (List.intercalate_splitOn x).symm] at h
  exact mem_intercalate h

theorem filter_eq_self_of_notMem {t : List Char} {c : Char} (h : c ∉ t) :
    t.filter (· ≠ c) = t :=
  List.filter_eq_self.mpr fun _ hd => decide_eq_true fun heq => h (heq ▸ hd)

theorem filter_intercalate {x : Char} : ∀ {ps : List (List Char)}, (∀ p ∈ ps, x ∉ p) →
    ([x].intercalate ps).filter (· ≠ x) = ps.flatten
  | [], _ => rfl
  | [p], h => by
    rw [List.intercalate_singleton, filter_eq_self_of_notMem (h p List.mem_cons_self)]
    simp
  | p :: q :: ps, h => by
    rw [List.intercalate_cons_cons, List.filter_append, List.filter_append,
      filter_eq_self_of_notMem (h p List.mem_cons_self),
      filter_intercalate fun r hr => h r (List.mem_cons_of_mem p hr)]
    simp

end MyBooks
